import Mathlib.Data.List.Infix

/-!
# Messages in a stream

A message is written to a stream as a header of fixed width that holds its length, followed by the
message. The reader takes messages off the front of what it has so far, as long as there is a whole
one.

However the stream is cut into pieces, the reader finds the messages that were written: what it has
taken and what it has left is a division of the stream into whole frames and a beginning of a frame,
and there is only one.
-/

namespace Framing

structure Header (α : Type) where
  width : Nat
  put : Nat → List α
  get : List α → Nat
  width_pos : 0 < width
  length_put : ∀ n, (put n).length = width
  put_get : ∀ symbols, symbols.length = width → put (get symbols) = symbols

namespace Header

variable {α : Type} (hd : Header α)

def frame (message : List α) : List α :=
  hd.put message.length ++ message

def frames (messages : List (List α)) : List α :=
  messages.flatMap hd.frame

def Fits (message : List α) : Prop :=
  hd.get (hd.put message.length) = message.length

def Incomplete (symbols : List α) : Prop :=
  symbols.length < hd.width + hd.get (symbols.take hd.width)

@[simp] theorem frames_nil : hd.frames [] = [] := rfl

@[simp] theorem frames_cons (message : List α) (rest : List (List α)) :
    hd.frames (message :: rest) = hd.frame message ++ hd.frames rest := rfl

@[simp] theorem frames_append (messages more : List (List α)) :
    hd.frames (messages ++ more) = hd.frames messages ++ hd.frames more :=
  List.flatMap_append

theorem length_frame (message : List α) : (hd.frame message).length = hd.width + message.length := by
  rw [frame, List.length_append, hd.length_put]

theorem incomplete_nil : hd.Incomplete [] := by
  have := hd.width_pos
  simp only [Incomplete, List.length_nil]
  omega

variable {hd} {symbols rest message : List α} {messages messages' : List (List α)}

theorem eq_frame_append (hwhole : ¬ hd.Incomplete symbols) :
    hd.Fits ((symbols.drop hd.width).take (hd.get (symbols.take hd.width))) ∧
    symbols = hd.frame ((symbols.drop hd.width).take (hd.get (symbols.take hd.width))) ++
      symbols.drop (hd.width + hd.get (symbols.take hd.width)) := by
  rw [Incomplete, not_lt] at hwhole
  have hheader : (symbols.take hd.width).length = hd.width := by
    rw [List.length_take]
    omega
  have hmessage : ((symbols.drop hd.width).take (hd.get (symbols.take hd.width))).length =
      hd.get (symbols.take hd.width) := by
    rw [List.length_take, List.length_drop]
    omega
  refine ⟨by rw [Fits, hmessage, hd.put_get _ hheader], ?_⟩
  rw [frame, hmessage, hd.put_get _ hheader, List.append_assoc, ← List.drop_drop,
    List.take_append_drop, List.take_append_drop]

theorem get_take_frame (hfits : hd.Fits message) (hbegins : symbols <+: hd.frame message ++ rest)
    (hwidth : hd.width ≤ symbols.length) : hd.get (symbols.take hd.width) = message.length := by
  obtain ⟨tail, htail⟩ := hbegins
  have htake : symbols.take hd.width = hd.put message.length := by
    have hcut := congrArg (List.take hd.width) htail
    rwa [List.take_append_of_le_length hwidth, frame, List.append_assoc,
      List.take_append_of_le_length (hd.length_put _).ge,
      List.take_of_length_le (hd.length_put _).le] at hcut
  rw [htake, hfits]

theorem Incomplete.length_lt (hincomplete : hd.Incomplete symbols) (hfits : hd.Fits message)
    (hbegins : symbols <+: hd.frame message ++ rest) :
    symbols.length < (hd.frame message).length := by
  rw [length_frame]
  rw [Incomplete] at hincomplete
  rcases Nat.lt_or_ge symbols.length hd.width with hshort | hlong
  · omega
  · rwa [get_take_frame hfits hbegins hlong] at hincomplete

theorem message_eq_of_frame {message' : List α} (hfits : hd.Fits message)
    (hfits' : hd.Fits message') (hbegins : hd.frame message <+: hd.frame message' ++ rest) :
    message = message' := by
  have hwidth : hd.width ≤ (hd.frame message).length := by
    rw [length_frame]
    omega
  have hlength : message.length = message'.length := by
    rw [← get_take_frame hfits (List.prefix_append _ []) hwidth,
      get_take_frame hfits' hbegins hwidth]
  have hframe : (hd.frame message).length = (hd.frame message').length := by
    rw [length_frame, length_frame, hlength]
  have hsame : hd.frame message = hd.frame message' :=
    (List.prefix_of_prefix_length_le hbegins (List.prefix_append _ _) hframe.le).eq_of_length hframe
  rw [frame, frame, hlength] at hsame
  exact List.append_cancel_left hsame

/-- **There is one division** of a stream into messages and a rest that is not a whole frame. -/
theorem division_unique (hincomplete : hd.Incomplete rest) (hfits : ∀ m ∈ messages, hd.Fits m)
    (hfits' : ∀ m ∈ messages', hd.Fits m)
    (hbegins : hd.frames messages ++ rest <+: hd.frames messages') :
    ∃ more, messages' = messages ++ more ∧ rest <+: hd.frames more ∧
      ∀ m tail, more = m :: tail → rest.length < (hd.frame m).length := by
  induction messages generalizing messages' with
  | nil =>
      refine ⟨messages', rfl, hbegins, ?_⟩
      rintro m tail rfl
      exact hincomplete.length_lt (hfits' m List.mem_cons_self) hbegins
  | cons message messages ih =>
      cases messages' with
      | nil =>
          have hlength := hbegins.length_le
          have hwidth := hd.width_pos
          simp only [frames_cons, frames_nil, List.length_append, length_frame,
            List.length_nil] at hlength
          omega
      | cons message' messages' =>
          rw [frames_cons, frames_cons, List.append_assoc] at hbegins
          obtain rfl := message_eq_of_frame (hfits message List.mem_cons_self)
            (hfits' message' List.mem_cons_self) ((List.prefix_append _ _).trans hbegins)
          obtain ⟨more, hmore, hrest, hshort⟩ := ih (fun m hm => hfits m (List.mem_cons_of_mem _ hm))
            (fun m hm => hfits' m (List.mem_cons_of_mem _ hm))
            ((List.prefix_append_right_inj _).mp hbegins)
          exact ⟨more, by rw [hmore, List.cons_append], hrest, hshort⟩

theorem division_whole (hincomplete : hd.Incomplete rest) (hfits : ∀ m ∈ messages, hd.Fits m)
    (hfits' : ∀ m ∈ messages', hd.Fits m)
    (hstream : hd.frames messages ++ rest = hd.frames messages') :
    messages = messages' ∧ rest = [] := by
  obtain ⟨more, rfl, -, hshort⟩ := division_unique hincomplete hfits hfits'
    (hstream ▸ List.prefix_refl _)
  rw [frames_append, List.append_cancel_left_eq] at hstream
  cases more with
  | nil => exact ⟨(List.append_nil _).symm, hstream⟩
  | cons m tail =>
      have hlength := hshort m tail rfl
      rw [hstream, frames_cons, List.length_append] at hlength
      omega

end Header

end Framing
