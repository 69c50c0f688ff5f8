import Chiralite.Hash

/-!
# The builds of rapidhash

`vendor/rapidhash.h` is written for many compilers and machines: it multiplies with a wide type, an
intrinsic or four products of halves, it reads words as they lie in memory or with their bytes
swapped, by an intrinsic or by shifts, and its loop over long buffers takes one block at a time or
two. The two sides of a connection compare hashes, and each has its own build.

`Build.rapidhashInternal` is the function as a build compiles it. All builds compute the same
hashes (`builds_agree`), those of `Chiralite.rapidhashInternal`, apart from the one option that is
documented to change the function, `RAPIDHASH_PROTECTED`: those that set it agree with one another.
-/

namespace Chiralite

/-! ### Multiplication -/

section Mum

theorem toNat_shiftLeft_32 (v : UInt64) : (v <<< 32).toNat = v.toNat % 2 ^ 32 * 2 ^ 32 := by
  have hshift : (v <<< 32).toNat = v.toNat <<< 32 % 2 ^ 64 := UInt64.toNat_shiftLeft v 32
  rw [hshift, Nat.shiftLeft_eq]
  omega

theorem toNat_shiftRight_32 (v : UInt64) : (v >>> 32).toNat = v.toNat / 2 ^ 32 := by
  have hshift : (v >>> 32).toNat = v.toNat >>> 32 := UInt64.toNat_shiftRight v 32
  rw [hshift, Nat.shiftRight_eq_div_pow]

theorem toNat_lowHalf (v : UInt64) : v.toUInt32.toUInt64.toNat = v.toNat % 2 ^ 32 := by
  rw [UInt32.toNat_toUInt64, UInt64.toNat_toUInt32]

theorem toNat_mul_halves {x y : UInt64} (hx : x.toNat < 2 ^ 32) (hy : y.toNat < 2 ^ 32) :
    (x * y).toNat = x.toNat * y.toNat := by
  have hlt : x.toNat * y.toNat < 2 ^ 32 * 2 ^ 32 := Nat.mul_lt_mul'' hx hy
  rw [UInt64.toNat_mul]
  exact Nat.mod_eq_of_lt (by omega)

theorem toNat_carry (sum x : UInt64) :
    (if sum < x then 1 else 0 : UInt64).toNat = TwoDigits.carry sum.toNat x.toNat := by
  unfold TwoDigits.carry
  simp only [UInt64.lt_iff_toNat_lt]
  split
  · rfl
  · rfl

/-- **Multiplying with halves gives both halves of the product.** -/
theorem mumHalves_eq (a b : UInt64) : mumHalves a b = rapidMum a b := by
  have hhigh : ∀ v : UInt64, (v >>> 32).toNat < 2 ^ 32 := by
    intro v
    rw [toNat_shiftRight_32]
    have hv := v.toNat_lt
    omega
  have hlow : ∀ v : UInt64, v.toUInt32.toUInt64.toNat < 2 ^ 32 := by
    intro v
    rw [toNat_lowHalf]
    omega
  have hsplit : ∀ v : UInt64, v.toUInt32.toUInt64.toNat + 2 ^ 32 * (v >>> 32).toNat = v.toNat := by
    intro v
    rw [toNat_lowHalf, toNat_shiftRight_32, Nat.mod_add_div]
  -- the four products do not run over
  have hrh := toNat_mul_halves (hhigh a) (hhigh b)
  have hrm0 := toNat_mul_halves (hhigh a) (hlow b)
  have hrm1 := toNat_mul_halves (hhigh b) (hlow a)
  have hrl := toNat_mul_halves (hlow a) (hlow b)
  have ht : ∀ x y : UInt64, (x + y <<< 32).toNat =
      (x.toNat + y.toNat % 2 ^ 32 * 2 ^ 32) % (2 ^ 32 * 2 ^ 32) := by
    intro x y
    rw [UInt64.toNat_add, toNat_shiftLeft_32]
    norm_num
  have hproduct : a.toNat * b.toNat = _ :=
    (congrArg₂ (· * ·) (hsplit a) (hsplit b)).symm.trans
      (TwoDigits.mul_eq_low_add_high (hlow a) (hlow b))
  rw [← hrh, ← hrm0, ← hrm1, ← hrl, ← ht, ← ht, ← toNat_carry, ← toNat_carry,
    ← toNat_shiftRight_32, ← toNat_shiftRight_32] at hproduct
  unfold mumHalves rapidMum
  refine Prod.ext (UInt64.toNat_inj.mp ?_) (UInt64.toNat_inj.mp ?_)
  · rw [UInt64.toNat_ofNat']
    have hlt := UInt64.toNat_lt (a.toUInt32.toUInt64 * b.toUInt32.toUInt64 +
      (a >>> 32 * b.toUInt32.toUInt64) <<< 32 + (b >>> 32 * a.toUInt32.toUInt64) <<< 32)
    dsimp only
    omega
  · rw [UInt64.toNat_ofNat']
    have hlt := UInt64.toNat_lt (a.toUInt32.toUInt64 * b.toUInt32.toUInt64 +
      (a >>> 32 * b.toUInt32.toUInt64) <<< 32 + (b >>> 32 * a.toUInt32.toUInt64) <<< 32)
    dsimp only
    simp only [UInt64.toNat_add]
    omega

end Mum

/-! ### The order of bytes -/

section ByteOrder

theorem eq_of_bits {a b : UInt64}
    (h : ∀ i < 64, a.toBitVec.getLsbD i = b.toBitVec.getLsbD i) : a = b :=
  UInt64.toBitVec_inj.mp (BitVec.eq_of_getLsbD_eq fun i hi => h i hi)

/-- **A word, bit by bit**: each byte has its eight bits, and there are no others. -/
theorem littleEndian_bit (bytes : Bytes) {i : Nat} (hi : i < 64) :
    (littleEndian bytes).toBitVec.getLsbD i =
      (bytes[i / 8]?.getD 0).toBitVec.getLsbD (i % 8) := by
  induction bytes generalizing i with
  | nil => simp [littleEndian]
  | cons b bytes ih =>
    have hcons : littleEndian (b :: bytes) = littleEndian bytes <<< 8 ||| b.toUInt64 := rfl
    have hshift : (littleEndian bytes <<< 8).toBitVec = (littleEndian bytes).toBitVec <<< 8 := rfl
    have hbyte : b.toUInt64.toBitVec = b.toBitVec.setWidth 64 := rfl
    rw [hcons, UInt64.toBitVec_or, BitVec.getLsbD_or, hshift, hbyte, BitVec.getLsbD_shiftLeft,
      BitVec.getLsbD_setWidth]
    by_cases hfirst : i < 8
    · rw [Nat.div_eq_of_lt hfirst, Nat.mod_eq_of_lt hfirst]
      simp [hfirst, hi]
    · have hdiv : i / 8 = (i - 8) / 8 + 1 := by omega
      have hmod : i % 8 = (i - 8) % 8 := by omega
      have hnone : b.toBitVec.getLsbD i = false := BitVec.getLsbD_of_ge _ _ (by omega)
      rw [hdiv, hmod, List.getElem?_cons_succ, ← ih (by omega), hnone]
      simp only [hfirst, hi, decide_true, decide_false, Bool.not_false, Bool.true_and,
        Bool.and_false, Bool.or_false]

/-- The bytes of a word that was filled from bytes are these bytes. -/
theorem wordBytes_littleEndian {n : Nat} {bytes : Bytes} (hn : n ≤ 8) (hlen : bytes.length = n) :
    wordBytes n (littleEndian bytes) = bytes := by
  refine List.ext_getElem (by rw [wordBytes, List.length_map, List.length_range, hlen]) ?_
  intro k hk hk'
  rw [hlen] at hk'
  refine UInt8.toBitVec_inj.mp (BitVec.eq_of_getLsbD_eq fun j hj => ?_)
  have hdiv : (8 * k + j) / 8 = k := by omega
  have hmod : (8 * k + j) % 8 = j := by omega
  have hbyte : bytes[(8 * k + j) / 8]?.getD 0 = bytes[k] := by
    rw [hdiv, List.getElem?_eq_getElem (by omega), Option.getD_some]
  simp only [wordBytes, List.getElem_map, List.getElem_range, UInt8.toBitVec_ofBitVec]
  rw [BitVec.getLsbD_extractLsb', littleEndian_bit bytes (by omega), hbyte, hmod]
  simp only [hj, decide_true, Bool.true_and]

theorem bswap64_littleEndian {bytes : Bytes} (hlen : bytes.length = 8) :
    bswap64 (littleEndian bytes.reverse) = littleEndian bytes := by
  rw [bswap64, wordBytes_littleEndian (le_refl 8) (by rw [List.length_reverse, hlen]),
    List.reverse_reverse]

/-- Nothing is lost when the word of at most four bytes is cut to 32 bits. -/
theorem littleEndian_toUInt32 {bytes : Bytes} (hlen : bytes.length ≤ 4) :
    (littleEndian bytes).toUInt32.toUInt64 = littleEndian bytes := by
  refine eq_of_bits fun i hi => ?_
  have hcut : (littleEndian bytes).toUInt32.toUInt64.toBitVec =
      ((littleEndian bytes).toBitVec.setWidth 32).setWidth 64 := rfl
  rw [hcut, BitVec.getLsbD_setWidth, BitVec.getLsbD_setWidth]
  by_cases hlow : i < 32
  · simp only [hi, hlow, decide_true, Bool.true_and]
  · have hnone : (littleEndian bytes).toBitVec.getLsbD i = false := by
      rw [littleEndian_bit bytes hi, List.getElem?_eq_none (by omega)]
      simp
    simp only [hnone, Bool.and_false]

theorem bswap32_littleEndian {bytes : Bytes} (hlen : bytes.length = 4) :
    (bswap32 (littleEndian bytes.reverse).toUInt32).toUInt64 = littleEndian bytes := by
  have hrev : bytes.reverse.length = 4 := by rw [List.length_reverse, hlen]
  rw [bswap32, littleEndian_toUInt32 hrev.le, wordBytes_littleEndian (by decide) hrev,
    List.reverse_reverse, littleEndian_toUInt32 hlen.le]

/-- The bits of a mask of one byte. -/
theorem mask_bit : ∀ k < 8, ∀ i < 64,
    ((0xff : BitVec 64) <<< (8 * k)).getLsbD i = decide (i / 8 = k) := by
  decide

/-- **The shifts put every byte into the place of its counterpart.** -/
theorem shiftSwap64_bit (v : UInt64) {i : Nat} (hi : i < 64) :
    (shiftSwap64 v).toBitVec.getLsbD i = v.toBitVec.getLsbD (8 * (7 - i / 8) + i % 8) := by
  have h0 : (0xff : UInt64).toBitVec.getLsbD i = decide (i / 8 = 0) :=
    mask_bit 0 (by decide) i hi
  have h1 : (0xff00 : UInt64).toBitVec.getLsbD i = decide (i / 8 = 1) :=
    mask_bit 1 (by decide) i hi
  have h2 : (0xff0000 : UInt64).toBitVec.getLsbD i = decide (i / 8 = 2) :=
    mask_bit 2 (by decide) i hi
  have h3 : (0xff000000 : UInt64).toBitVec.getLsbD i = decide (i / 8 = 3) :=
    mask_bit 3 (by decide) i hi
  have h4 : (0xff00000000 : UInt64).toBitVec.getLsbD i = decide (i / 8 = 4) :=
    mask_bit 4 (by decide) i hi
  have h5 : (0xff0000000000 : UInt64).toBitVec.getLsbD i = decide (i / 8 = 5) :=
    mask_bit 5 (by decide) i hi
  have h6 : (0xff000000000000 : UInt64).toBitVec.getLsbD i = decide (i / 8 = 6) :=
    mask_bit 6 (by decide) i hi
  have h7 : (0xff00000000000000 : UInt64).toBitVec.getLsbD i = decide (i / 8 = 7) :=
    mask_bit 7 (by decide) i hi
  simp only [shiftSwap64, UInt64.toBitVec_or, UInt64.toBitVec_and, BitVec.getLsbD_or,
    BitVec.getLsbD_and, h0, h1, h2, h3, h4, h5, h6, h7]
  have hright : ∀ s, (v.toBitVec >>> s).getLsbD i = v.toBitVec.getLsbD (s + i) := fun s =>
    BitVec.getLsbD_ushiftRight _ _ _
  have hleft : ∀ s, s ≤ i → (v.toBitVec <<< s).getLsbD i = v.toBitVec.getLsbD (i - s) := by
    intro s hs
    rw [BitVec.getLsbD_shiftLeft, decide_eq_true hi, decide_eq_false (by omega)]
    rfl
  have hsame : ∀ {j}, j = 8 * (7 - i / 8) + i % 8 →
      v.toBitVec.getLsbD j = v.toBitVec.getLsbD (8 * (7 - i / 8) + i % 8) := fun h => by rw [h]
  have hk : i / 8 = 0 ∨ i / 8 = 1 ∨ i / 8 = 2 ∨ i / 8 = 3 ∨ i / 8 = 4 ∨ i / 8 = 5 ∨ i / 8 = 6 ∨
      i / 8 = 7 := by omega
  -- of the eight terms, the one whose mask has the bit is left
  rcases hk with hk | hk | hk | hk | hk | hk | hk | hk
  all_goals simp only [hk, Nat.reduceEqDiff, decide_true, decide_false,
    Bool.and_true, Bool.and_false, Bool.or_false, Bool.false_or]
  all_goals rw [hk] at hsame
  · exact (hright 56).trans (hsame (by omega))
  · exact (hright 40).trans (hsame (by omega))
  · exact (hright 24).trans (hsame (by omega))
  · exact (hright 8).trans (hsame (by omega))
  · exact (hleft 8 (by omega)).trans (hsame (by omega))
  · exact (hleft 24 (by omega)).trans (hsame (by omega))
  · exact (hleft 40 (by omega)).trans (hsame (by omega))
  · exact (hleft 56 (by omega)).trans (hsame (by omega))

/-- The byte that the shifts put there is the one of the reversed bytes. -/
theorem getElem?_reverse_block {bytes : Bytes} {n k : Nat} (hlen : bytes.length = n) (hk : k < n) :
    bytes.reverse[n - 1 - k]? = bytes[k]? := by
  rw [List.getElem?_reverse (by omega), hlen]
  congr 1
  omega

theorem shiftSwap64_littleEndian {bytes : Bytes} (hlen : bytes.length = 8) :
    shiftSwap64 (littleEndian bytes.reverse) = littleEndian bytes := by
  refine eq_of_bits fun i hi => ?_
  have hdiv : (8 * (7 - i / 8) + i % 8) / 8 = 8 - 1 - i / 8 := by omega
  have hmod : (8 * (7 - i / 8) + i % 8) % 8 = i % 8 := by omega
  rw [shiftSwap64_bit _ hi, littleEndian_bit _ (by omega), littleEndian_bit _ hi, hdiv, hmod,
    getElem?_reverse_block hlen (by omega)]

theorem mask_bit_32 : ∀ k < 4, ∀ i < 32,
    ((0xff : BitVec 32) <<< (8 * k)).getLsbD i = decide (i / 8 = k) := by
  decide

theorem shiftSwap32_bit (v : UInt32) {i : Nat} (hi : i < 32) :
    (shiftSwap32 v).toBitVec.getLsbD i = v.toBitVec.getLsbD (8 * (3 - i / 8) + i % 8) := by
  have h0 : (0xff : UInt32).toBitVec.getLsbD i = decide (i / 8 = 0) :=
    mask_bit_32 0 (by decide) i hi
  have h1 : (0xff00 : UInt32).toBitVec.getLsbD i = decide (i / 8 = 1) :=
    mask_bit_32 1 (by decide) i hi
  have h2 : (0xff0000 : UInt32).toBitVec.getLsbD i = decide (i / 8 = 2) :=
    mask_bit_32 2 (by decide) i hi
  have h3 : (0xff000000 : UInt32).toBitVec.getLsbD i = decide (i / 8 = 3) :=
    mask_bit_32 3 (by decide) i hi
  simp only [shiftSwap32, UInt32.toBitVec_or, UInt32.toBitVec_and, BitVec.getLsbD_or,
    BitVec.getLsbD_and, h0, h1, h2, h3]
  have hright : ∀ s, (v.toBitVec >>> s).getLsbD i = v.toBitVec.getLsbD (s + i) := fun s =>
    BitVec.getLsbD_ushiftRight _ _ _
  have hleft : ∀ s, s ≤ i → (v.toBitVec <<< s).getLsbD i = v.toBitVec.getLsbD (i - s) := by
    intro s hs
    rw [BitVec.getLsbD_shiftLeft, decide_eq_true hi, decide_eq_false (by omega)]
    rfl
  have hsame : ∀ {j}, j = 8 * (3 - i / 8) + i % 8 →
      v.toBitVec.getLsbD j = v.toBitVec.getLsbD (8 * (3 - i / 8) + i % 8) := fun h => by rw [h]
  have hk : i / 8 = 0 ∨ i / 8 = 1 ∨ i / 8 = 2 ∨ i / 8 = 3 := by omega
  rcases hk with hk | hk | hk | hk
  all_goals simp only [hk, Nat.reduceEqDiff, decide_true, decide_false, Bool.and_true,
    Bool.and_false, Bool.or_false, Bool.false_or]
  all_goals rw [hk] at hsame
  · exact (hright 24).trans (hsame (by omega))
  · exact (hright 8).trans (hsame (by omega))
  · exact (hleft 8 (by omega)).trans (hsame (by omega))
  · exact (hleft 24 (by omega)).trans (hsame (by omega))

theorem shiftSwap32_littleEndian {bytes : Bytes} (hlen : bytes.length = 4) :
    (shiftSwap32 (littleEndian bytes.reverse).toUInt32).toUInt64 = littleEndian bytes := by
  rw [← littleEndian_toUInt32 hlen.le]
  refine congrArg UInt32.toUInt64 (UInt32.toBitVec_inj.mp (BitVec.eq_of_getLsbD_eq fun i hi => ?_))
  have hcut : ∀ bs : Bytes, ∀ j < 32, (littleEndian bs).toUInt32.toBitVec.getLsbD j =
      (bs[j / 8]?.getD 0).toBitVec.getLsbD (j % 8) := by
    intro bs j hj
    have hset : (littleEndian bs).toUInt32.toBitVec = (littleEndian bs).toBitVec.setWidth 32 := rfl
    rw [hset, BitVec.getLsbD_setWidth, decide_eq_true hj, Bool.true_and,
      littleEndian_bit bs (by omega)]
  have hdiv : (8 * (3 - i / 8) + i % 8) / 8 = 4 - 1 - i / 8 := by omega
  have hmod : (8 * (3 - i / 8) + i % 8) % 8 = i % 8 := by omega
  rw [shiftSwap32_bit _ hi, hcut _ _ (by omega), hcut _ _ hi, hdiv, hmod,
    getElem?_reverse_block hlen (by omega)]

end ByteOrder

/-! ### All builds agree -/

/-- The build of the package, with or without the protection. -/
def plainBuild (isProtected : Bool) : Build := ⟨.wide, .littleEndian, true, isProtected⟩

/-- **Compilers and machines do not matter to the primitives.** -/
theorem Build.primitives_eq (B : Build) : B.primitives = (plainBuild B.isProtected).primitives := by
  obtain ⟨multiply, reads, compact, isProtected⟩ := B
  have hmum : Build.rapidMum ⟨multiply, reads, compact, isProtected⟩ =
      (plainBuild isProtected).rapidMum := by
    funext a b
    cases multiply with
    | wide => rfl
    | halves =>
      simp only [Build.rapidMum, plainBuild]
      rw [mumHalves_eq]
      rfl
  have hread64 : Build.rapidRead64 ⟨multiply, reads, compact, isProtected⟩ =
      (plainBuild isProtected).rapidRead64 := by
    funext ⟨bytes, hlen⟩
    cases reads with
    | littleEndian => rfl
    | bigSwapped => exact bswap64_littleEndian hlen
    | bigShifted => exact shiftSwap64_littleEndian hlen
  have hread32 : Build.rapidRead32 ⟨multiply, reads, compact, isProtected⟩ =
      (plainBuild isProtected).rapidRead32 := by
    funext ⟨bytes, hlen⟩
    cases reads with
    | littleEndian => rfl
    | bigSwapped => exact (bswap32_littleEndian hlen).trans (littleEndian_toUInt32 hlen.le).symm
    | bigShifted => exact (shiftSwap32_littleEndian hlen).trans (littleEndian_toUInt32 hlen.le).symm
  simp only [Build.primitives, hmum, hread64, hread32]

namespace Primitives

section Loops

variable (P : Primitives) {data : Bytes}

/-- The same place, written in another way. -/
theorem bulk_congr {p p' i i' : Nat} (hp : p = p') (hii' : i = i') (inside : p + i = data.length)
    (hi : 112 < i) (l : Lanes) :
    P.bulk data p i inside hi l = P.bulk data p' i' (by omega) (by omega) l := by
  subst hp hii'
  rfl

theorem rest_congr {p p' i i' : Nat} (hp : p = p') (hii' : i = i')
    (inside : p + i = data.length) (seed : UInt64) :
    (⟨p, i, inside, seed⟩ : Rest data) = ⟨p', i', by omega, seed⟩ := by
  subst hp hii'
  rfl

/-- **Two blocks at a time are one block at a time.** -/
theorem bulkUnrolled_eq {p i : Nat} (inside : p + i = data.length) (hi : 112 < i) (l : Lanes) :
    P.bulkUnrolled data p i inside l = P.bulk data p i inside hi l := by
  have hp : p + 224 = p + 112 + 112 := by omega
  have hi' : i - 224 = i - 112 - 112 := by omega
  rw [bulkUnrolled, bulk.eq_def]
  by_cases htwo : 224 < i
  · -- the two blocks of one round are two rounds of the compact loop
    rw [dif_pos htwo, dif_pos (by omega), bulk.eq_def]
    by_cases hmore : 112 < i - 112 - 112
    · rw [dif_pos hmore]
      calc P.bulkUnrolled data (p + 224) (i - 224) _ _
          = P.bulk data (p + 224) (i - 224) _ _ _ := bulkUnrolled_eq (by omega) (by omega) _
        _ = P.bulk data (p + 112 + 112) (i - 112 - 112) _ _ _ := P.bulk_congr hp hi' _ _ _
    · rw [dif_neg hmore, bulkUnrolled, dif_neg (by omega), dif_neg (by omega)]
      exact rest_congr hp hi' _ _
  · rw [dif_neg htwo, dif_pos hi, dif_neg (by omega)]
termination_by i

/-- The option of the loop does not matter. -/
theorem rest_compact (compact : Bool) (data : Bytes) (seed : UInt64) :
    P.rest compact data seed = P.rest true data seed := by
  cases compact with
  | true => rfl
  | false =>
    unfold rest
    by_cases hlong : 112 < data.length
    · rw [dif_pos hlong, dif_pos hlong]
      exact P.bulkUnrolled_eq _ hlong _
    · rw [dif_neg hlong, dif_neg hlong]

theorem hash_compact (compact : Bool) (seed : UInt64) :
    P.hash compact data seed = P.hash true data seed := by
  simp only [hash, P.rest_compact compact]

end Loops

/-- The primitives of `Chiralite.rapidhashInternal`. -/
def reference : Primitives :=
  ⟨Chiralite.rapidMum, fun bytes => littleEndian bytes.1, fun bytes => littleEndian bytes.1⟩

theorem plainBuild_primitives : (plainBuild false).primitives = reference := by
  have hread32 : (plainBuild false).rapidRead32 = fun bytes => littleEndian bytes.1 := by
    funext ⟨bytes, hlen⟩
    exact littleEndian_toUInt32 hlen.le
  have hmum : (plainBuild false).rapidMum = Chiralite.rapidMum := rfl
  have hread64 : (plainBuild false).rapidRead64 = fun bytes => littleEndian bytes.1 := rfl
  rw [Build.primitives, hread32, hmum, hread64]
  rfl

theorem reference_bulk {data : Bytes} {p i : Nat} (inside : p + i = data.length) (hi : 112 < i)
    (l : Lanes) : reference.bulk data p i inside hi l = rapidBulk data p i inside hi l := by
  rw [bulk.eq_def, rapidBulk.eq_def]
  by_cases hmore : 112 < i - 112
  · rw [dif_pos hmore, dif_pos hmore]
    exact reference_bulk _ hmore _
  · rw [dif_neg hmore, dif_neg hmore]
    rfl
termination_by i

theorem reference_hash (data : Bytes) (seed : UInt64) :
    reference.hash true data seed = rapidhashInternal data seed := by
  have hrest : ∀ seed, reference.rest true data seed =
      if h112 : 112 < data.length then
        rapidBulk data 0 data.length (Nat.zero_add _) h112
          ⟨seed, seed, seed, seed, seed, seed, seed⟩
      else ⟨0, data.length, Nat.zero_add _, seed⟩ := by
    intro seed
    unfold rest
    by_cases hlong : 112 < data.length
    · rw [dif_pos hlong, dif_pos hlong]
      exact reference_bulk _ hlong _
    · rw [dif_neg hlong, dif_neg hlong]
  simp only [hash, hrest]
  rfl

end Primitives

/-- **Every build computes the same hashes.** Whatever the compiler offers to multiply with,
whatever the order of bytes in memory and however the loop is unrolled, the hash depends on the
data, the seed and the one option that is there to change it; without that option it is the hash
that the index and the messages are about. -/
theorem builds_agree (B : Build) (data : Bytes) (seed : UInt64) :
    B.rapidhashInternal data seed = (plainBuild B.isProtected).rapidhashInternal data seed ∧
      (plainBuild false).rapidhashInternal data seed = rapidhashInternal data seed := by
  refine ⟨?_, ?_⟩
  · rw [Build.rapidhashInternal, Build.rapidhashInternal, B.primitives_eq]
    exact Primitives.hash_compact _ B.compact seed
  · rw [Build.rapidhashInternal, Primitives.plainBuild_primitives]
    exact Primitives.reference_hash data seed

end Chiralite
