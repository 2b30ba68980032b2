import Mathlib.Data.List.Basic
import Mathlib.Data.Nat.Basic

/-!
# Frames in a stream

A frame is a header of a fixed length and a body. A reading of headers says how long
the body after a header is, or that the header cannot be read. `nextFrame` takes the
first frame of a stream, when the stream starts with a complete one.

`Frames` divides a stream into the bodies of the longest prefix made of complete
frames and the rest, and every stream has a division (`exists_frames`). When a second
reading agrees with the first where the first one can read, its division continues the
first one (`Frames.append`).
-/

set_option autoImplicit false

namespace Framing

variable {α : Type*}

/-- The body of the first frame and what follows it. -/
def nextFrame (headerLength : ℕ) (read : List α → Option ℕ) (stream : List α) :
    Option (List α × List α) :=
  if stream.length < headerLength then none
  else (read (stream.take headerLength)).bind fun length =>
    if (stream.drop headerLength).length < length then none
    else some ((stream.drop headerLength).take length, (stream.drop headerLength).drop length)

/-- The bodies of the complete frames a stream starts with, and the rest. -/
inductive Frames (headerLength : ℕ) (read : List α → Option ℕ) :
    List α → List (List α) → List α → Prop
  | done {rest : List α} (complete : nextFrame headerLength read rest = none) :
      Frames headerLength read rest [] rest
  | frame {stream body later rest : List α} {bodies : List (List α)}
      (next : nextFrame headerLength read stream = some (body, later))
      (frames : Frames headerLength read later bodies rest) :
      Frames headerLength read stream (body :: bodies) rest

variable {headerLength : ℕ} {read : List α → Option ℕ}

theorem nextFrame_eq_some {stream body rest : List α} :
    nextFrame headerLength read stream = some (body, rest) ↔
      ∃ header, header.length = headerLength ∧ read header = some body.length ∧
        stream = header ++ (body ++ rest) := by
  constructor
  · intro found
    unfold nextFrame at found
    split at found
    · cases found
    · rename_i long
      obtain ⟨length, readable, taken⟩ := Option.bind_eq_some_iff.mp found
      split at taken
      · cases taken
      · rename_i enough
        cases taken
        refine ⟨stream.take headerLength, ?_, ?_, ?_⟩
        · rw [List.length_take]
          omega
        · rw [List.length_take, Nat.min_eq_left (Nat.not_lt.mp enough)]
          exact readable
        · rw [List.take_append_drop, List.take_append_drop]
  · rintro ⟨header, rfl, readable, rfl⟩
    unfold nextFrame
    rw [List.take_left, List.drop_left, readable, if_neg (by simp)]
    simp

/-- A complete frame is shorter than a stream that starts with it. -/
theorem length_lt_of_nextFrame {stream body rest : List α} (positive : 0 < headerLength)
    (next : nextFrame headerLength read stream = some (body, rest)) :
    rest.length < stream.length := by
  obtain ⟨header, exact_, -, rfl⟩ := nextFrame_eq_some.mp next
  simp only [List.length_append]
  omega

/-- **Every stream is divided into frames and a rest.** -/
theorem exists_frames (positive : 0 < headerLength) (stream : List α) :
    ∃ bodies rest, Frames headerLength read stream bodies rest := by
  generalize bound : stream.length = size
  induction size using Nat.strong_induction_on generalizing stream with
  | _ size ih =>
      cases next : nextFrame headerLength read stream with
      | none => exact ⟨[], stream, .done next⟩
      | some found =>
          obtain ⟨body, later⟩ := found
          have shorter := length_lt_of_nextFrame positive next
          obtain ⟨bodies, rest, frames⟩ := ih later.length (bound ▸ shorter) later rfl
          exact ⟨body :: bodies, rest, .frame next frames⟩

/-- No complete frame starts the rest. -/
theorem Frames.rest_complete {stream rest : List α} {bodies : List (List α)}
    (frames : Frames headerLength read stream bodies rest) :
    nextFrame headerLength read rest = none := by
  induction frames with
  | done complete => exact complete
  | frame _ _ ih => exact ih

/-- A reading that reads what another one does, and maybe more, finds the other's
frames first. -/
theorem Frames.append {other : List α → Option ℕ} {stream rest : List α}
    {bodies : List (List α)} (frames : Frames headerLength read stream bodies rest)
    (extends_ : ∀ header length, header.length = headerLength → read header = some length →
      other header = some length)
    {laterBodies : List (List α)} {laterRest : List α}
    (later : Frames headerLength other rest laterBodies laterRest) :
    Frames headerLength other stream (bodies ++ laterBodies) laterRest := by
  induction frames with
  | done => exact later
  | frame next _ ih =>
      obtain ⟨header, length, readable, divided⟩ := nextFrame_eq_some.mp next
      exact .frame (nextFrame_eq_some.mpr
        ⟨header, length, extends_ header _ length readable, divided⟩) (ih later)

/-- Frames written one after the other are found one after the other. -/
theorem frames_flatten {framed : List α → List α} {bodies : List (List α)}
    (written : ∀ body ∈ bodies, ∃ header, header.length = headerLength ∧
      read header = some body.length ∧ framed body = header ++ body)
    (positive : 0 < headerLength) :
    Frames headerLength read (bodies.map framed).flatten bodies [] := by
  induction bodies with
  | nil =>
      refine .done ?_
      unfold nextFrame
      exact if_pos positive
  | cons body rest ih =>
      obtain ⟨header, length, readable, layout⟩ := written body List.mem_cons_self
      refine .frame (nextFrame_eq_some.mpr ⟨header, length, readable, ?_⟩)
        (ih fun other member => written other (List.mem_cons_of_mem _ member))
      rw [List.map_cons, List.flatten_cons, layout, List.append_assoc]

end Framing
