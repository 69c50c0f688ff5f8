import Chiralite.Framework.Fifo
import Chiralite.Framework.LineIterator
import Chiralite.Framework.Utf8
import Chiralite.Transport.HttpSse

/-!
# The event stream

`handle_events` of `transport/http_sse.py` writes its frames as an event stream, whatever happens
between its steps (`streams_run`). `HttpSseClientConn._sse_reader` reads that stream and puts the
frames into a queue, from which `recv` takes them. A frame is never empty, and an empty byte string
in the queue marks the end: `recv` makes of it a `ConnectionLostHttp`.

The mark is put by the `except` clause of the reader. So it is there when the request fails, when
its status is an error or when the stream breaks off (`Response.Fails`), and it is not there when
the response comes to its end, as it does after the `write_eof` of `handle_events`: the frames have
been received, and from then on `recv` waits (`never_lost`). `delivers_iff` says when the frames and
the end arrive: the response fails, and before that no frame was too long for the iterator over its
lines, which belongs to the HTTP library and is a parameter (`Lines.Iterator`).
-/

namespace Chiralite
namespace HttpSse

open Py

/-! ### The stream -/

/-- The events of some frames, behind the retry hint. -/
def eventStream (frames : List Bytes) : Str := retryHint ++ frames.flatMap event

section Serve

variable {σ : Type} {token : Str} {s : App σ} {r : Request}

/-- The frame that `handle_events` takes when it goes on. -/
def framesTaken (s : App σ) (r : Request) : List Bytes :=
  match r.progress, r.object with
  | .streaming _, some j => (s.activeOut j).toList
  | _, _ => []

/-- `handle_events` goes on in a state of the application; with the frames that it has taken. -/
def goOn (token : Str) (x : Request × List Bytes) (s : App σ) : Request × List Bytes :=
  ((handleEvents s x.1 token).2, x.2 ++ framesTaken s x.1)

/-- **What has been written** is the stream of the frames that were taken, the last one apart while
it is being written. -/
inductive Streams : Request × List Bytes → Prop where
  | streaming {r : Request} {j : Nat} {frames : List Bytes} (hobject : r.object = some j)
    (h : r.progress = .streaming (eventStream frames)) : Streams (r, frames)
  | writing {r : Request} {j : Nat} {frames : List Bytes} {frame : Bytes}
    (hobject : r.object = some j) (h : r.progress = .writing (eventStream frames) frame) :
    Streams (r, frames ++ [frame])

theorem eventStream_concat (frames : List Bytes) (frame : Bytes) :
    eventStream (frames ++ [frame]) = eventStream frames ++ event frame := by
  unfold eventStream
  rw [List.flatMap_append, List.flatMap_singleton, List.append_assoc]

/-- A step of `handle_events`, in whatever state the application is. -/
theorem Streams.goOn {x : Request × List Bytes} (h : Streams x) (s : App σ) :
    Streams (goOn token x s) := by
  cases h with
  | @streaming r j frames hobject h =>
    -- it waits until there is a frame in the queue
    cases hout : s.activeOut j with
    | none =>
      have hstep : HttpSse.goOn token (r, frames) s = (r, frames) := by
        simp only [HttpSse.goOn, handleEvents, framesTaken, h, hobject, hout, Option.toList_none,
          List.append_nil]
      rw [hstep]
      exact .streaming hobject h
    | some frame =>
      have hstep : HttpSse.goOn token (r, frames) s =
          ({ r with progress := .writing (eventStream frames) frame }, frames ++ [frame]) := by
        simp only [HttpSse.goOn, handleEvents, framesTaken, h, hobject, hout, Option.toList_some]
      rw [hstep]
      exact .writing hobject rfl
  | @writing r j frames frame hobject h =>
    have hstep : HttpSse.goOn token (r, frames ++ [frame]) s =
        ({ r with progress := .streaming (eventStream frames ++ event frame) },
          frames ++ [frame]) := by
      simp only [HttpSse.goOn, handleEvents, framesTaken, h, List.append_nil]
    rw [hstep, ← eventStream_concat]
    exact .streaming hobject rfl

/-- **Every run of `handle_events`** that finds its session writes the stream of the frames it
takes, whatever happens to the application between its steps. -/
theorem streams_run {j : Nat} (hstart : r.progress = .start)
    (hsession : s.sessions.get? token = some j) (later : List (App σ)) :
    Streams (Run.run (goOn token) (r, []) (s :: later)) := by
  have hbegin : goOn token (r, []) s =
      ({ r with object := some j, progress := .streaming retryHint }, []) := by
    simp only [goOn, handleEvents, framesTaken, hstart, hsession, List.append_nil]
  have hstep : ∀ (x : Request × List Bytes) (s : App σ), Streams x → True →
      Streams (goOn token x s) := fun x s h _ => h.goOn s
  rw [Run.run_cons, hbegin]
  exact Run.run_invariant hstep
    (.streaming rfl (by rw [eventStream, List.flatMap_nil, List.append_nil]))
    (Run.guarded_of_forall fun _ _ => trivial)

/-- When the task is cancelled, the response ends behind what has been written. -/
theorem Streams.hang {x : Request × List Bytes} (h : Streams x) (s : App σ) :
    ∃ frames, (x.2 = frames ∨ ∃ frame, x.2 = frames ++ [frame]) ∧
      (hang s x.1).2.progress = .ended (eventStream frames) := by
  cases h with
  | streaming hobject h =>
    refine ⟨_, .inl rfl, ?_⟩
    rw [HttpSse.hang, h]
  | writing hobject h =>
    refine ⟨_, .inr ⟨_, rfl⟩, ?_⟩
    rw [HttpSse.hang, h, hobject]

end Serve

/-! ### The reader -/

/-- What the GET of the client meets with. -/
inductive Response where
  /-- `session.get` raises. -/
  | unreachable
  | head (status : Nat) (body : Bytes) (ending : Lines.Ending)
  deriving DecidableEq

/-- The body of the loop of `_sse_reader`: what it puts into the queue, `none` where it raises. -/
def readLine (lineBytes : Bytes) : Option (List Bytes) :=
  match Utf8.decode lineBytes with
  | none => none
  | some text =>
    let line := strip text
    if lit "data:" <+: line then
      (Base64.b64decode (strip (line.drop 5))).map fun payload => [payload]
    else some []

/-- The loop of `_sse_reader`, over what the iterator gives. -/
def readLines : List Bytes → Lines.Ending → List Bytes × Lines.Ending
  | [], ending => ([], ending)
  | l :: ls, ending =>
    match readLine l with
    | none => ([], .raised)
    | some payloads => (payloads ++ (readLines ls ending).1, (readLines ls ending).2)

/-- The `try` block of `_sse_reader`. -/
def readEvents (I : Lines.Iterator) : Response → List Bytes × Lines.Ending
  | .unreachable => ([], .raised)
  | .head status body ending =>
    -- `raise_for_status`
    if 400 ≤ status then ([], .raised)
    else readLines (I.lines body ending).1 (I.lines body ending).2

/-- The end marker. -/
def endMarker : Bytes := []

/-- `_sse_reader`, by what it puts into the queue. -/
def sseReader (I : Lines.Iterator) (response : Response) : List Bytes :=
  match readEvents I response with
  | (payloads, .clean) => payloads
  | (payloads, .raised) => payloads ++ [endMarker]

/-- What a call of `recv` comes to. -/
inductive Received where
  | frame (data : Bytes)
  /-- `ConnectionLostHttp("SSE stream closed")`. -/
  | lost
  deriving DecidableEq

/-- `recv`, behind its `get`. -/
def recv (data : Bytes) : Received := if data = endMarker then .lost else .frame data

/-- The calls of `recv` that have returned or raised, when the reader and the caller have taken
these turns. -/
def received (I : Lines.Iterator) (response : Response) (turns : List Fifo.Turn) : List Received :=
  (Fifo.after (sseReader I response) turns).taken.map recv

/-- Nothing is left for the reader to put. -/
def Finished (I : Lines.Iterator) (response : Response) (turns : List Fifo.Turn) : Prop :=
  (Fifo.after (sseReader I response) turns).todo = []

/-! ### Delivery -/

/-- **The responses that carry these frames**: a stream of them, whatever its end, or for no frames
a response without a stream. -/
inductive Carries : List Bytes → Response → Prop where
  | unreachable : Carries [] .unreachable
  | status {code : Nat} (h : 400 ≤ code) (body : Bytes) (ending : Lines.Ending) :
    Carries [] (.head code body ending)
  | stream {frames : List Bytes} {body : Bytes} (h : encode (eventStream frames) = some body)
    (ending : Lines.Ending) : Carries frames (.head 200 body ending)

/-- The response ends in an exception. -/
def Response.Fails : Response → Prop
  | .unreachable => True
  | .head status _ ending => 400 ≤ status ∨ ending = .raised

/-- **The frames and the end are delivered**: the reader puts the frames and one end marker, `recv`
gives each frame once and in order and then raises, and when the reader has finished, so many calls
of it have come to that. -/
structure Delivers (I : Lines.Iterator) (frames : List Bytes) (response : Response) : Prop where
  puts : sseReader I response = frames ++ [endMarker]
  ordered : ∀ turns, received I response turns <+: frames.map .frame ++ [.lost]
  complete : ∀ turns, Finished I response turns →
    received I response (turns ++ List.replicate (frames.length + 1) .take) =
      frames.map .frame ++ [.lost]

section Delivery

variable {I : Lines.Iterator} {frames : List Bytes} {response : Response}

theorem recv_endMarker : recv endMarker = .lost := rfl

theorem map_recv (h : ∀ f ∈ frames, f ≠ []) : frames.map recv = frames.map .frame :=
  List.map_congr_left fun f hf => if_neg (h f hf)

/-- It is enough that the reader puts the right items. -/
theorem delivers_of_puts (hframes : ∀ f ∈ frames, f ≠ [])
    (h : sseReader I response = frames ++ [endMarker]) : Delivers I frames response := by
  have hrecv : (frames ++ [endMarker]).map recv = frames.map .frame ++ [.lost] := by
    rw [List.map_append, map_recv hframes, List.map_singleton, recv_endMarker]
  refine ⟨h, fun turns => ?_, fun turns hfinished => ?_⟩
  · rw [← hrecv, ← h]
    exact (Fifo.taken_prefix _ turns).map recv
  · have hlength : (sseReader I response).length ≤ frames.length + 1 := by
      rw [h, List.length_append, List.length_singleton]
    rw [← hrecv, ← h]
    exact congrArg (List.map recv) (Fifo.taken_of_finished hfinished hlength)

/-! ### The lines of the stream -/

/-- The bytes of an ASCII text. -/
def ascii (s : Str) : Bytes := s.map fun c => UInt8.ofNat c.val

/-- The line of an event that carries the frame. -/
def dataLine (frame : Bytes) : Str := lit "data: " ++ Base64.b64encode frame ++ [newline]

/-- The lines that are written for some frames. -/
def eventLines (frames : List Bytes) : List Str :=
  frames.flatMap fun frame => [dataLine frame, [newline]]

/-- All lines of the stream. -/
def streamLines (frames : List Bytes) : List Str :=
  lit "retry: 3000\n" :: [newline] :: eventLines frames

theorem event_eq (frame : Bytes) : event frame = dataLine frame ++ [newline] := by
  have hblank : lit "\n\n" = [newline] ++ [newline] := by decide
  simp only [event, dataLine, hblank, List.append_assoc]

theorem flatten_eventLines (frames : List Bytes) :
    (eventLines frames).flatten = frames.flatMap event := by
  induction frames with
  | nil => rfl
  | cons frame frames ih =>
    unfold eventLines at ih ⊢
    rw [List.flatMap_cons, List.flatten_append, ih, List.flatMap_cons, event_eq]
    rfl

theorem flatten_streamLines (frames : List Bytes) :
    (streamLines frames).flatten = eventStream frames := by
  have hretry : lit "retry: 3000\n" ++ [newline] = retryHint := by decide
  rw [streamLines, List.flatten_cons, List.flatten_cons, flatten_eventLines, ← List.append_assoc,
    hretry]
  rfl

/-- A printable text with a newline behind it. -/
def IsTextLine (line : Str) : Prop := ∃ body, line = body ++ [newline] ∧ Printable body

theorem IsTextLine.isAscii {line : Str} (h : IsTextLine line) : ∀ c ∈ line, isAscii c = true := by
  obtain ⟨body, rfl, hbody⟩ := h
  intro c hc
  obtain hc | hc := List.mem_append.mp hc
  · exact isAscii_of_isPrintable (hbody c hc)
  · rw [List.mem_singleton.mp hc]
    decide

theorem IsTextLine.isLine {line : Str} (h : IsTextLine line) : Lines.IsLine (ascii line) := by
  obtain ⟨body, rfl, hbody⟩ := h
  refine ⟨ascii body, List.map_append, fun hmem => ?_⟩
  obtain ⟨c, hc, hbyte⟩ := List.mem_map.mp hmem
  have hprintable := hbody c hc
  -- the byte of a printable character is its number
  simp only [isPrintable, Bool.and_eq_true, decide_eq_true_eq] at hprintable
  have hval := congrArg UInt8.toNat hbyte
  rw [Utf8.toNat_ofNat (by omega)] at hval
  have hnewline : (0x0a : UInt8).toNat = 0x0a := rfl
  omega

theorem isTextLine_dataLine (frame : Bytes) : IsTextLine (dataLine frame) := by
  have hfield : Printable (lit "data: ") := by decide
  exact ⟨_, rfl, hfield.append (Base64.printable_b64encode frame)⟩

theorem isTextLine_streamLines (frames : List Bytes) : ∀ l ∈ streamLines frames, IsTextLine l := by
  have hblank : IsTextLine [newline] := ⟨[], rfl, List.forall_mem_nil _⟩
  have hretry : IsTextLine (lit "retry: 3000\n") := ⟨lit "retry: 3000", by decide, by decide⟩
  refine List.forall_mem_cons.mpr ⟨hretry, List.forall_mem_cons.mpr ⟨hblank, fun l hl => ?_⟩⟩
  obtain ⟨frame, -, hl⟩ := List.mem_flatMap.mp hl
  obtain rfl | hl := List.mem_cons.mp hl
  · exact isTextLine_dataLine frame
  · rw [List.mem_singleton.mp hl]
    exact hblank

/-- The body of a response that carries the frames, as its lines. -/
theorem encode_eventStream (frames : List Bytes) :
    encode (eventStream frames) = some ((streamLines frames).map ascii).flatten := by
  have hascii : ∀ c ∈ eventStream frames, isAscii c = true := by
    intro c hc
    rw [← flatten_streamLines] at hc
    obtain ⟨l, hl, hc⟩ := List.mem_flatten.mp hc
    exact (isTextLine_streamLines frames l hl).isAscii c hc
  rw [encode_of_isAscii hascii, ← flatten_streamLines, List.map_flatten]
  rfl

/-! ### Reading it -/

theorem decode_ascii {s : Str} (h : ∀ c ∈ s, isAscii c = true) : Utf8.decode (ascii s) = some s :=
  Utf8.decode_encode (encode_of_isAscii h)

/-- The line of an event gives its frame. -/
theorem readLine_dataLine {frame : Bytes} (hframe : frame ≠ []) :
    readLine (ascii (dataLine frame)) = some [frame] := by
  have hlength : 0 < (Base64.b64encode frame).length := by
    have hpos := List.length_pos_of_ne_nil hframe
    rw [Base64.length_b64encode]
    omega
  have hspaces := Base64.isSpace_b64encode frame
  -- no space at the end but the newline
  obtain ⟨init, last, hlast⟩ := (List.eq_nil_or_concat' (Base64.b64encode frame)).resolve_left
    (List.ne_nil_of_length_pos hlength)
  have hstrip : strip (dataLine frame) = lit "data: " ++ Base64.b64encode frame := by
    have hnonspace : isSpace last = false := hspaces last (by simp [hlast])
    rw [dataLine, strip_concat_space (by decide), hlast, ← List.append_assoc]
    exact strip_eq_self (by decide) hnonspace
  have hdrop : (lit "data: " ++ Base64.b64encode frame).drop 5 =
      ofChar ' ' :: Base64.b64encode frame := rfl
  have hpayload : strip (ofChar ' ' :: Base64.b64encode frame) = Base64.b64encode frame := by
    rw [strip_cons_space (by decide), strip_of_forall hspaces]
  have hfield : lit "data:" <+: lit "data: " ++ Base64.b64encode frame :=
    ⟨ofChar ' ' :: Base64.b64encode frame, rfl⟩
  unfold readLine
  rw [decode_ascii (isTextLine_dataLine frame).isAscii]
  simp only [hstrip, if_pos hfield, hdrop, hpayload, Base64.b64decode_b64encode, Option.map_some]

/-- The other lines give nothing. -/
theorem readLine_blank : readLine (ascii [newline]) = some [] := by decide

theorem readLine_retry : readLine (ascii (lit "retry: 3000\n")) = some [] := by decide +kernel

/-- **The lines of events are read back** as their frames. -/
theorem readLines_eventLines (hframes : ∀ f ∈ frames, f ≠ []) (ending : Lines.Ending) :
    readLines ((eventLines frames).map ascii) ending = (frames, ending) := by
  induction frames with
  | nil => rfl
  | cons frame frames ih =>
    obtain ⟨hframe, hframes⟩ := List.forall_mem_cons.mp hframes
    have hcons : (eventLines (frame :: frames)).map ascii =
        ascii (dataLine frame) :: ascii [newline] :: (eventLines frames).map ascii := rfl
    simp only [hcons, readLines, readLine_dataLine hframe, readLine_blank, ih hframes,
      List.nil_append, List.singleton_append]

theorem readLines_streamLines (hframes : ∀ f ∈ frames, f ≠ []) (ending : Lines.Ending) :
    readLines ((streamLines frames).map ascii) ending = (frames, ending) := by
  have hcons : (streamLines frames).map ascii =
      ascii (lit "retry: 3000\n") :: ascii [newline] :: (eventLines frames).map ascii := rfl
  simp only [hcons, readLines, readLine_retry, readLine_blank, readLines_eventLines hframes,
    List.nil_append]

/-- The line of an event with this frame is not too long for the iterator. -/
def Fits (I : Lines.Iterator) (frame : Bytes) : Prop := 7 + 4 * ((frame.length + 2) / 3) ≤ I.limit

instance (I : Lines.Iterator) (frame : Bytes) : Decidable (Fits I frame) :=
  inferInstanceAs (Decidable (_ ≤ _))

theorem length_dataLine (frame : Bytes) :
    (ascii (dataLine frame)).length = 7 + 4 * ((frame.length + 2) / 3) := by
  have hfield : (lit "data: ").length = 6 := by decide
  rw [ascii, List.length_map, dataLine, List.length_append, List.length_append, hfield,
    Base64.length_b64encode, List.length_singleton]
  omega

/-- The first frame that does not fit. -/
theorem exists_first_long (h : ¬ ∀ f ∈ frames, Fits I f) :
    ∃ front frame back, frames = front ++ frame :: back ∧ (∀ f ∈ front, Fits I f) ∧
      ¬ Fits I frame := by
  induction frames with
  | nil => exact absurd (List.forall_mem_nil _) h
  | cons f frames ih =>
    by_cases hf : Fits I f
    · obtain ⟨front, frame, back, rfl, hfront, hlong⟩ :=
        ih fun hrest => h (List.forall_mem_cons.mpr ⟨hf, hrest⟩)
      exact ⟨f :: front, frame, back, rfl, List.forall_mem_cons.mpr ⟨hf, hfront⟩, hlong⟩
    · exact ⟨[], f, frames, rfl, List.forall_mem_nil _, hf⟩

/-- The lines of frames that fit are given by the iterator. -/
theorem streamLines_fit (h : ∀ f ∈ frames, Fits I f) :
    ∀ l ∈ (streamLines frames).map ascii, Lines.IsLine l ∧ l.length ≤ I.limit := by
  have hshort : ∀ {l : Str}, l.length ≤ 12 → (ascii l).length ≤ I.limit := by
    intro l hl
    rw [ascii, List.length_map]
    exact (hl.trans (by decide)).trans I.le_limit
  intro l hl
  obtain ⟨text, htext, rfl⟩ := List.mem_map.mp hl
  refine ⟨(isTextLine_streamLines frames text htext).isLine, ?_⟩
  obtain rfl | htext := List.mem_cons.mp htext
  · exact hshort (by decide)
  obtain rfl | htext := List.mem_cons.mp htext
  · exact hshort (by decide)
  obtain ⟨frame, hframe, htext⟩ := List.mem_flatMap.mp htext
  obtain rfl | htext := List.mem_cons.mp htext
  · rw [length_dataLine]
    exact h frame hframe
  · rw [List.mem_singleton.mp htext]
    exact hshort (by decide)

/-- **The stream of frames that fit**: they are read, and the end is as it is. -/
theorem readEvents_stream (hframes : ∀ f ∈ frames, f ≠ []) (hfit : ∀ f ∈ frames, Fits I f)
    {body : Bytes} (hbody : encode (eventStream frames) = some body) (ending : Lines.Ending) :
    readEvents I (.head 200 body ending) = (frames, ending) := by
  rw [encode_eventStream] at hbody
  cases hbody
  rw [readEvents, if_neg (by decide), I.lines_flatten _ _ (streamLines_fit hfit)]
  exact readLines_streamLines hframes ending

/-- **The stream with a frame that does not fit**: it is read up to there. -/
theorem readEvents_long {front back : List Bytes} {frame : Bytes} (hfront : ∀ f ∈ front, f ≠ [])
    (hfit : ∀ f ∈ front, Fits I f) (hlong : ¬ Fits I frame) {body : Bytes}
    (hbody : encode (eventStream (front ++ frame :: back)) = some body) (ending : Lines.Ending) :
    readEvents I (.head 200 body ending) = (front, .raised) := by
  have hlines : streamLines (front ++ frame :: back) =
      streamLines front ++ (dataLine frame :: [newline] :: eventLines back) := by
    simp only [streamLines, eventLines, List.flatMap_append, List.flatMap_cons, List.cons_append,
      List.nil_append]
  have hlength : I.limit < (ascii (dataLine frame)).length := by
    rw [length_dataLine]
    exact Nat.lt_of_not_le hlong
  rw [encode_eventStream, hlines, List.map_append, List.flatten_append, List.map_cons,
    List.flatten_cons] at hbody
  cases hbody
  rw [readEvents, if_neg (by decide), I.lines_long _ _ _ _ (streamLines_fit hfit)
    (isTextLine_dataLine frame).isLine hlength]
  exact readLines_streamLines hfront .raised

/-! ### When the frames and the end arrive -/

/-- **On a clean end `recv` never raises.** It waits. -/
theorem never_lost (hframes : ∀ f ∈ frames, f ≠ []) (hfit : ∀ f ∈ frames, Fits I f)
    {body : Bytes} (hbody : encode (eventStream frames) = some body) (turns : List Fifo.Turn) :
    .lost ∉ received I (.head 200 body .clean) turns := by
  have hputs : sseReader I (.head 200 body .clean) = frames := by
    rw [sseReader, readEvents_stream hframes hfit hbody]
  unfold received
  rw [hputs]
  intro hmem
  have hlost := ((Fifo.taken_prefix frames turns).map recv).subset hmem
  rw [map_recv hframes] at hlost
  simp at hlost

/-- **When the frames and the end are delivered**: the response ends in an exception, and no frame
is too long for the iterator over the lines. -/
theorem delivers_iff (I : Lines.Iterator) {frames : List Bytes} (hframes : ∀ f ∈ frames, f ≠ [])
    {response : Response} (h : Carries frames response) :
    Delivers I frames response ↔ response.Fails ∧ ∀ f ∈ frames, Fits I f := by
  cases h with
  | unreachable =>
    exact iff_of_true (delivers_of_puts hframes rfl) ⟨trivial, List.forall_mem_nil _⟩
  | @status code h body ending =>
    have hputs : sseReader I (.head code body ending) = [endMarker] := by
      rw [sseReader, readEvents, if_pos h]
      rfl
    exact iff_of_true (delivers_of_puts hframes hputs) ⟨.inl h, List.forall_mem_nil _⟩
  | @stream frames body hbody ending =>
    by_cases hfit : ∀ f ∈ frames, Fits I f
    · have hread := readEvents_stream hframes hfit hbody ending
      cases ending with
      | clean =>
        -- the frames are there, the marker is missing
        refine iff_of_false (fun hdelivers => ?_) ?_
        · have hputs := hdelivers.puts
          rw [sseReader, hread] at hputs
          simp at hputs
        · rintro ⟨hstatus | hending, -⟩
          · exact absurd hstatus (by decide)
          · cases hending
      | raised =>
        have hputs : sseReader I (.head 200 body .raised) = frames ++ [endMarker] := by
          rw [sseReader, hread]
        exact iff_of_true (delivers_of_puts hframes hputs) ⟨.inr rfl, hfit⟩
    · refine iff_of_false (fun hdelivers => ?_) (fun h => hfit h.2)
      -- the marker is there, and the first long frame is missing
      obtain ⟨front, frame, back, rfl, hfront, hlong⟩ := exists_first_long hfit
      have hputs := hdelivers.puts
      rw [sseReader, readEvents_long (fun f hf => hframes f (List.mem_append_left _ hf)) hfront
        hlong hbody] at hputs
      simp at hputs

end Delivery

namespace Sample

/-- An iterator that gives lines of up to 128 KiB. -/
def iterator : Lines.Iterator := .ofLimit (2 ^ 17) (by decide)

/-- The response with these frames. -/
def streamed (frames : List Bytes) (ending : Lines.Ending) : Response :=
  .head 200 ((streamLines frames).map ascii).flatten ending

theorem carries_streamed (frames : List Bytes) (ending : Lines.Ending) :
    Carries frames (streamed frames ending) := .stream (encode_eventStream frames) ending

/-- A connection that is lost behind the second frame. -/
theorem broken_stream_delivers :
    Delivers iterator [[1], [2, 3]] (streamed [[1], [2, 3]] .raised) :=
  (delivers_iff iterator (by decide) (carries_streamed _ _)).mpr ⟨.inr rfl, by decide⟩

/-- **The end of the response is not told.** After the only frame the caller of `recv` waits. -/
theorem clean_end_not_told :
    Carries [[1]] (streamed [[1]] .clean) ∧
      sseReader iterator (streamed [[1]] .clean) = [[1]] ∧
      (∀ turns, .lost ∉ received iterator (streamed [[1]] .clean) turns) ∧
      ¬ Delivers iterator [[1]] (streamed [[1]] .clean) := by
  have hframes : ∀ f ∈ [([1] : Bytes)], f ≠ [] := by decide
  have hfit : ∀ f ∈ [([1] : Bytes)], Fits iterator f := by decide
  have hputs : sseReader iterator (streamed [[1]] .clean) = [[1]] := by
    rw [sseReader, streamed, readEvents_stream hframes hfit (encode_eventStream _)]
  refine ⟨carries_streamed _ _, hputs, never_lost hframes hfit (encode_eventStream _), ?_⟩
  intro hdelivers
  have hmarker := hdelivers.puts
  rw [hputs] at hmarker
  simp at hmarker

end Sample

end HttpSse
end Chiralite
