import Chiralite.Framework.JsonRoundTrip
import Mathlib.Logic.Equiv.Prod

/-!
# Declared models over JSON

A model class declares its fields by name and type, is written to JSON as an object with one member
a field, and is read back member by member, with its validators run again. A `Codec` is a type with
both directions and the laws that connect them; a `Members` is the same for the fields of a model.
Both are built from the declarations of the source, and the laws come with the construction:

* a `Valid` value is read back as it was (`load_dump`), and only valid values are read
  (`load_valid`), so that the validators neither reject what was written nor let through what
  they should not;
* a `Text` value, one whose strings a JSON text can hold, is written as a `Textual` document.

A member is found by its name, so the order of the members and members of other names do not
matter. `Discriminated` is a union of models that one member tells apart.
-/

namespace Py
namespace Json

/-! ### Textual documents -/

/-- A document that its text determines: strings of Unicode scalar values, no float, and no object
with a repeated key. -/
inductive Textual : Value → Prop
  | null : Textual .null
  | bool (b : Bool) : Textual (.bool b)
  | int (n : Int) : Textual (.int n)
  | str {s : Str} (h : Scalar s) : Textual (.str s)
  | arr {vs : List Value} (h : ∀ v ∈ vs, Textual v) : Textual (.arr vs)
  | obj {kvs : List (Str × Value)} (hkeys : (kvs.map Prod.fst).Nodup)
      (hscalar : ∀ k ∈ kvs.map Prod.fst, Scalar k) (h : ∀ kv ∈ kvs, Textual kv.2) :
      Textual (.obj kvs)

theorem codableElems_of_forall {vs : List Value} (h : ∀ v ∈ vs, Codable v) : CodableElems vs := by
  induction vs with
  | nil => trivial
  | cons v vs ih =>
    obtain ⟨hv, hvs⟩ := List.forall_mem_cons.mp h
    exact ⟨hv, ih hvs⟩

theorem Textual.codable {v : Value} (h : Textual v) : Codable v := by
  induction h with
  | null => trivial
  | bool b => trivial
  | int n => trivial
  | str h => exact stable_of_scalar h
  | arr _ ih => exact codableElems_of_forall ih
  | obj hkeys hscalar _ ih =>
    refine ⟨hkeys, codableMembers_iff.mpr fun kv hkv => ⟨?_, ih kv hkv⟩⟩
    exact hscalar kv.1 (List.mem_map_of_mem hkv)

/-! ### Reading every element of a list -/

section MapM

variable {α β : Type}

theorem mapM_map_eq_some {f : α → β} {g : β → Option α} {as : List α}
    (h : ∀ a ∈ as, g (f a) = some a) : (as.map f).mapM g = some as := by
  induction as with
  | nil => rfl
  | cons a as ih =>
    obtain ⟨ha, has⟩ := List.forall_mem_cons.mp h
    rw [List.map_cons, List.mapM_cons, ha, ih has]
    rfl

theorem forall_of_mapM_eq_some {g : β → Option α} {P : α → Prop} (hg : ∀ {b a}, g b = some a → P a)
    {bs : List β} {as : List α} (h : bs.mapM g = some as) : ∀ a ∈ as, P a := by
  induction bs generalizing as with
  | nil =>
    cases h
    simp
  | cons b bs ih =>
    rw [List.mapM_cons] at h
    obtain ⟨a, ha, h⟩ := Option.bind_eq_some_iff.mp h
    obtain ⟨as', hrest, h⟩ := Option.bind_eq_some_iff.mp h
    cases h
    exact List.forall_mem_cons.mpr ⟨hg ha, ih hrest⟩

end MapM

/-! ### Types -/

/-- How the values of a declared type are written and read; `load` is `none` where validation
fails. -/
structure Codec (α : Type) where
  dump : α → Value
  load : Value → Option α
  /-- The validators accept. -/
  Valid : α → Prop
  /-- The strings are Unicode text. -/
  Text : α → Prop
  load_dump : ∀ {a}, Valid a → load (dump a) = some a
  load_valid : ∀ {v a}, load v = some a → Valid a
  textual_dump : ∀ {a}, Text a → Textual (dump a)

namespace Codec

variable {α β : Type}

/-- `str`. -/
def str : Codec Str where
  dump := .str
  load
    | .str s => some s
    | _ => none
  Valid _ := True
  Text := Scalar
  load_dump _ := rfl
  load_valid _ := trivial
  textual_dump h := .str h

/-- A type with a constraint or a validator. -/
def checked (c : Codec α) (P : α → Prop) [DecidablePred P] : Codec α where
  dump := c.dump
  load v := (c.load v).filter P
  Valid a := c.Valid a ∧ P a
  Text := c.Text
  load_dump h := by
    rw [c.load_dump h.1, Option.filter_some, if_pos (decide_eq_true h.2)]
  load_valid h := by
    obtain ⟨hload, hP⟩ := Option.filter_eq_some_iff.mp h
    exact ⟨c.load_valid hload, of_decide_eq_true hP⟩
  textual_dump := c.textual_dump

/-- `T | None`, for a type that does not write `null` itself. -/
def optional (c : Codec α) (hnull : ∀ a, c.dump a ≠ .null) : Codec (Option α) where
  dump
    | none => .null
    | some a => c.dump a
  load
    | .null => some none
    | v => (c.load v).map some
  Valid o := ∀ a, o = some a → c.Valid a
  Text o := ∀ a, o = some a → c.Text a
  load_dump {o} h := by
    cases o with
    | none => rfl
    | some a =>
      have hload := c.load_dump (h a rfl)
      have hne := hnull a
      cases hdump : c.dump a with
      | null => exact absurd hdump hne
      | _ => simp only [hload, Option.map_some]
  load_valid {v o} h a ha := by
    subst ha
    cases v with
    | null => cases h
    | _ =>
      obtain ⟨b, hload, hb⟩ := Option.map_eq_some_iff.mp h
      cases hb
      exact c.load_valid hload
  textual_dump {o} h := by
    cases o with
    | none => exact .null
    | some a => exact c.textual_dump (h a rfl)

/-- A type under another name. -/
def equiv (c : Codec α) (e : α ≃ β) : Codec β where
  dump b := c.dump (e.symm b)
  load v := (c.load v).map e
  Valid b := c.Valid (e.symm b)
  Text b := c.Text (e.symm b)
  load_dump h := by rw [c.load_dump h, Option.map_some, e.apply_symm_apply]
  load_valid h := by
    obtain ⟨a, hload, rfl⟩ := Option.map_eq_some_iff.mp h
    rw [e.symm_apply_apply]
    exact c.load_valid hload
  textual_dump h := c.textual_dump h

/-- `list[T]`. -/
def list (c : Codec α) : Codec (List α) where
  dump as := .arr (as.map c.dump)
  load
    | .arr vs => vs.mapM c.load
    | _ => none
  Valid as := ∀ a ∈ as, c.Valid a
  Text as := ∀ a ∈ as, c.Text a
  load_dump h := mapM_map_eq_some fun a ha => c.load_dump (h a ha)
  load_valid {v as} h := by
    cases v with
    | arr vs => exact forall_of_mapM_eq_some c.load_valid h
    | _ => cases h
  textual_dump h := by
    refine .arr fun v hv => ?_
    obtain ⟨a, ha, rfl⟩ := List.mem_map.mp hv
    exact c.textual_dump (h a ha)

/-- One entry of a dictionary, whose key goes with its value. -/
def entry (c : Codec α) (kv : Str × Value) : Option (Str × α) := (c.load kv.2).map (kv.1, ·)

/-- `dict[str, T]`, by its items. -/
def dict (c : Codec α) : Codec (List (Str × α)) where
  dump items := .obj (items.map fun kv => (kv.1, c.dump kv.2))
  load
    | .obj kvs => kvs.mapM c.entry
    | _ => none
  Valid items := ∀ kv ∈ items, c.Valid kv.2
  Text items := (items.map Prod.fst).Nodup ∧ ∀ kv ∈ items, Scalar kv.1 ∧ c.Text kv.2
  load_dump h := by
    refine mapM_map_eq_some fun kv hkv => ?_
    rw [entry, c.load_dump (h kv hkv), Option.map_some]
  load_valid {v items} h := by
    cases v with
    | obj kvs =>
      refine forall_of_mapM_eq_some (fun {kv item} hentry => ?_) h
      obtain ⟨a, hload, rfl⟩ := Option.map_eq_some_iff.mp hentry
      exact c.load_valid hload
    | _ => cases h
  textual_dump {items} h := by
    have hkeys : (items.map fun kv => (kv.1, c.dump kv.2)).map Prod.fst = items.map Prod.fst := by
      rw [List.map_map]
      rfl
    refine .obj (hkeys ▸ h.1) ?_ ?_
    · rw [hkeys]
      exact List.forall_mem_map.mpr fun kv hkv => (h.2 kv hkv).1
    · exact List.forall_mem_map.mpr fun kv hkv => c.textual_dump (h.2 kv hkv).2

section Projections

variable {c : Codec α}

@[simp] theorem valid_str {s : Str} : str.Valid s := trivial

@[simp] theorem valid_list {as : List α} : c.list.Valid as ↔ ∀ a ∈ as, c.Valid a := Iff.rfl

@[simp] theorem valid_dict {items : List (Str × α)} :
    c.dict.Valid items ↔ ∀ kv ∈ items, c.Valid kv.2 := Iff.rfl

end Projections

end Codec

/-! ### Fields -/

/-- The fields of a model, in the order of their declaration; they are read from the members of an
object, given by their names. -/
structure Members (α : Type) where
  names : List Str
  dump : α → List (Str × Value)
  load : (Str → Option Value) → Option α
  Valid : α → Prop
  Text : α → Prop
  dump_names : ∀ a, (dump a).map Prod.fst = names
  load_dump : ∀ {a o}, Valid a → (∀ kv ∈ dump a, o kv.1 = some kv.2) → load o = some a
  load_valid : ∀ {o a}, load o = some a → Valid a
  textual_dump : ∀ {a}, Text a → ∀ kv ∈ dump a, Textual kv.2

namespace Members

variable {α β : Type}

/-- No field. -/
def empty : Members Unit where
  names := []
  dump _ := []
  load _ := some ()
  Valid _ := True
  Text _ := True
  dump_names _ := rfl
  load_dump _ _ := rfl
  load_valid _ := trivial
  textual_dump _ _ h := nomatch h

/-- A field, with the value that a missing member stands for. -/
def field (name : String) (c : Codec α) (default? : Option α)
    (hdefault : ∀ a, default? = some a → c.Valid a) : Members α where
  names := [lit name]
  dump a := [(lit name, c.dump a)]
  load o :=
    match o (lit name) with
    | some v => c.load v
    | none => default?
  Valid := c.Valid
  Text := c.Text
  dump_names _ := rfl
  load_dump {a o} h ho := by
    rw [show o (lit name) = some (c.dump a) from ho _ List.mem_cons_self]
    exact c.load_dump h
  load_valid {o a} h := by
    split at h
    · exact c.load_valid h
    · exact hdefault a h
  textual_dump h kv hkv := by
    rw [List.mem_singleton.mp hkv]
    exact c.textual_dump h

/-- `name: T`. -/
def required (name : String) (c : Codec α) : Members α := field name c none fun _ h => nomatch h

/-- `name: T = default`. -/
def defaulted (name : String) (c : Codec α) (default : α) (hdefault : c.Valid default) :
    Members α :=
  field name c (some default) fun _ h => Option.some.inj h ▸ hdefault

/-- The fields of the one, and then those of the other. -/
def and (m : Members α) (n : Members β) : Members (α × β) where
  names := m.names ++ n.names
  dump p := m.dump p.1 ++ n.dump p.2
  load o := (m.load o).bind fun a => (n.load o).map (a, ·)
  Valid p := m.Valid p.1 ∧ n.Valid p.2
  Text p := m.Text p.1 ∧ n.Text p.2
  dump_names p := by rw [List.map_append, m.dump_names, n.dump_names]
  load_dump {p o} h ho := by
    obtain ⟨hm, hn⟩ := List.forall_mem_append.mp ho
    rw [m.load_dump h.1 hm, n.load_dump h.2 hn]
    rfl
  load_valid h := by
    obtain ⟨a, ha, h⟩ := Option.bind_eq_some_iff.mp h
    obtain ⟨b, hb, rfl⟩ := Option.map_eq_some_iff.mp h
    exact ⟨m.load_valid ha, n.load_valid hb⟩
  textual_dump h := List.forall_mem_append.mpr ⟨m.textual_dump h.1, n.textual_dump h.2⟩

/-- The fields of a structure. -/
def equiv (m : Members α) (e : α ≃ β) : Members β where
  names := m.names
  dump b := m.dump (e.symm b)
  load o := (m.load o).map e
  Valid b := m.Valid (e.symm b)
  Text b := m.Text (e.symm b)
  dump_names b := m.dump_names (e.symm b)
  load_dump h ho := by rw [m.load_dump h ho, Option.map_some, e.apply_symm_apply]
  load_valid h := by
    obtain ⟨a, hload, rfl⟩ := Option.map_eq_some_iff.mp h
    rw [e.symm_apply_apply]
    exact m.load_valid hload
  textual_dump h := m.textual_dump h

/-- A validator of the whole model, that runs after those of the fields. -/
def checked (m : Members α) (P : α → Prop) [DecidablePred P] : Members α where
  names := m.names
  dump := m.dump
  load o := (m.load o).filter P
  Valid a := m.Valid a ∧ P a
  Text := m.Text
  dump_names := m.dump_names
  load_dump h ho := by
    rw [m.load_dump h.1 ho, Option.filter_some, if_pos (decide_eq_true h.2)]
  load_valid h := by
    obtain ⟨hload, hP⟩ := Option.filter_eq_some_iff.mp h
    exact ⟨m.load_valid hload, of_decide_eq_true hP⟩
  textual_dump := m.textual_dump

/-- `name: Literal[value] = value`, in front of the other fields. -/
def tagged (m : Members α) (name value : Str) (hvalue : Scalar value) : Members α where
  names := name :: m.names
  dump a := (name, .str value) :: m.dump a
  load o :=
    match o name with
    | some (.str s) => if s = value then m.load o else none
    | some _ => none
    | none => m.load o
  Valid := m.Valid
  Text := m.Text
  dump_names a := by rw [List.map_cons, m.dump_names]
  load_dump {a o} h ho := by
    obtain ⟨hname, ho⟩ := List.forall_mem_cons.mp ho
    rw [show o name = some (.str value) from hname]
    exact (if_pos rfl).trans (m.load_dump h ho)
  load_valid h := by
    split at h
    · split at h
      · exact m.load_valid h
      · cases h
    · cases h
    · exact m.load_valid h
  textual_dump h := List.forall_mem_cons.mpr ⟨.str hvalue, m.textual_dump h⟩

section Projections

variable {m : Members α} {n : Members β}

@[simp] theorem valid_empty {a : Unit} : empty.Valid a := trivial

@[simp] theorem valid_required {name : String} {c : Codec α} {a : α} :
    (required name c).Valid a ↔ c.Valid a := Iff.rfl

@[simp] theorem valid_defaulted {name : String} {c : Codec α} {d a : α} {hd : c.Valid d} :
    (defaulted name c d hd).Valid a ↔ c.Valid a := Iff.rfl

@[simp] theorem valid_and {p : α × β} : (m.and n).Valid p ↔ m.Valid p.1 ∧ n.Valid p.2 := Iff.rfl

@[simp] theorem valid_equiv {e : α ≃ β} {b : β} : (m.equiv e).Valid b ↔ m.Valid (e.symm b) :=
  Iff.rfl

end Projections

section Objects

variable (m : Members α) (hnames : m.names.Nodup)
include hnames

/-- **A member is found by its name.** -/
theorem lookup_dump (a : α) : ∀ kv ∈ m.dump a, lookupL kv.1 (m.dump a) = some kv.2 := by
  intro kv hkv
  exact (lookupL_eq_some_iff (by rwa [m.dump_names])).mpr hkv

theorem load_lookup_dump {a : α} (h : m.Valid a) :
    m.load (fun k => lookupL k (m.dump a)) = some a :=
  m.load_dump h (m.lookup_dump hnames a)

theorem textual_obj_dump (hscalar : ∀ k ∈ m.names, Scalar k) {a : α} (h : m.Text a) :
    Textual (.obj (m.dump a)) := by
  refine .obj ?_ ?_ (m.textual_dump h)
  · rwa [m.dump_names]
  · rwa [m.dump_names]

end Objects

/-- A model as the type of a field. -/
def codec (m : Members α) (hnames : m.names.Nodup) (hscalar : ∀ k ∈ m.names, Scalar k) :
    Codec α where
  dump a := .obj (m.dump a)
  load
    | .obj kvs => m.load fun k => lookupL k kvs
    | _ => none
  Valid := m.Valid
  Text := m.Text
  load_dump h := m.load_lookup_dump hnames h
  load_valid {v a} h := by
    cases v with
    | obj kvs => exact m.load_valid h
    | _ => cases h
  textual_dump h := m.textual_obj_dump hnames hscalar h

end Members

/-! ### Unions -/

/-- A union of models, told apart by the literal of one field. -/
structure Discriminated {τ : Type} (Payload : τ → Type) where
  discriminator : Str
  value : τ → Str
  tags : List τ
  fields : (t : τ) → Members (Payload t)
  complete : ∀ t, t ∈ tags
  injective : Function.Injective value
  scalar : ∀ t, Scalar (value t)
  nodup : ∀ t, (discriminator :: (fields t).names).Nodup
  names_scalar : ∀ t, ∀ k ∈ discriminator :: (fields t).names, Scalar k

namespace Discriminated

variable {τ : Type} {Payload : τ → Type} (D : Discriminated Payload)

/-- A model of the union, with its literal. -/
def model (t : τ) : Members (Payload t) :=
  (D.fields t).tagged D.discriminator (D.value t) (D.scalar t)

/-- The model with a literal. -/
def tag? (s : Str) : Option τ := D.tags.find? fun t => D.value t = s

theorem tag?_value (t : τ) : D.tag? (D.value t) = some t := by
  have hsome : (D.tag? (D.value t)).isSome :=
    List.find?_isSome.mpr ⟨t, D.complete t, decide_eq_true rfl⟩
  obtain ⟨t', ht'⟩ := Option.isSome_iff_exists.mp hsome
  have hvalue : D.value t' = D.value t := by simpa using List.find?_some ht'
  rw [ht', D.injective hvalue]

/-- The union as a type: the discriminator chooses the model that reads the object. -/
def codec : Codec (Sigma Payload) where
  dump p := .obj ((D.model p.1).dump p.2)
  load
    | .obj kvs =>
      match lookupL D.discriminator kvs with
      | some (.str s) => (D.tag? s).bind fun t =>
        ((D.model t).load fun k => lookupL k kvs).map (⟨t, ·⟩)
      | _ => none
    | _ => none
  Valid p := (D.fields p.1).Valid p.2
  Text p := (D.fields p.1).Text p.2
  load_dump {p} h := by
    have hfind : lookupL D.discriminator ((D.model p.1).dump p.2) = some (.str (D.value p.1)) :=
      (D.model p.1).lookup_dump (D.nodup p.1) p.2 _ List.mem_cons_self
    have hload := (D.model p.1).load_lookup_dump (D.nodup p.1) (a := p.2) h
    simp only [hfind, D.tag?_value, Option.bind_some, hload, Option.map_some]
  load_valid {v p} h := by
    cases v with
    | obj kvs =>
      simp only at h
      split at h
      · obtain ⟨t, -, h⟩ := Option.bind_eq_some_iff.mp h
        obtain ⟨a, hload, rfl⟩ := Option.map_eq_some_iff.mp h
        exact (D.model t).load_valid hload
      · cases h
    | _ => cases h
  textual_dump {p} h := (D.model p.1).textual_obj_dump (D.nodup p.1) (D.names_scalar p.1) h

end Discriminated

end Json
end Py
