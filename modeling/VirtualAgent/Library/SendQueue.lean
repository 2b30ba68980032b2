import Mathlib.Data.List.Basic

/-!
# A queue in front of a transport

A sender keeps the items it has to send in a queue. Only the first one is being
written; when its write completes it is removed, and the write of the next one is asked
for. The transport takes the elements of the writes asked for in pieces of any size. It
does not keep two writes apart: were two outstanding, their elements could mix.

`InOrder` is what the discipline of the queue keeps. At most one write is outstanding
(`InOrder.length_writes_le`), what the transport has taken is a prefix of the layouts of
the pushed items, one after the other (`InOrder.taken_prefix`), and it is all of them
when the queue is empty (`InOrder.taken_of_empty`). After a failed write nothing more is
taken. Each operation keeps the discipline.
-/

set_option autoImplicit false

namespace SendQueue

variable {α β : Type*}

/-- The items queued, the elements left of each outstanding write, and what the
transport has taken. -/
structure Sender (α β : Type*) where
  queue : List α
  writes : List (List β)
  taken : List β
  deriving DecidableEq

namespace Sender

/-- A sender that was given nothing. -/
def empty : Sender α β := ⟨[], [], []⟩

/-- Ask for the write of the first item. -/
def writeFront (layout : α → List β) (s : Sender α β) : Sender α β :=
  match s.queue with
  | [] => s
  | front :: _ => { s with writes := s.writes ++ [layout front] }

/-- Queue an item, and ask for its write unless one is in progress. -/
def push (layout : α → List β) (s : Sender α β) (item : α) : Sender α β :=
  let writeInProgress := !s.queue.isEmpty
  let queued := { s with queue := s.queue ++ [item] }
  if writeInProgress then queued else queued.writeFront layout

/-- The handler of a write that has succeeded. -/
def written (layout : α → List β) (s : Sender α β) : Sender α β :=
  let popped := { s with queue := s.queue.tail }
  if popped.queue.isEmpty then popped else popped.writeFront layout

/-- The transport takes elements of an outstanding write. -/
def transfer (s : Sender α β) (index count : ℕ) : Option (Sender α β) :=
  s.writes[index]?.bind fun left =>
    if 0 < count ∧ count ≤ left.length then
      some { s with
        writes := s.writes.set index (left.drop count)
        taken := s.taken ++ left.take count }
    else none

/-- A write of which nothing is left completes, and its handler runs. -/
def complete (layout : α → List β) (s : Sender α β) (index : ℕ) : Option (Sender α β) :=
  match s.writes[index]? with
  | some [] => some (written layout { s with writes := s.writes.eraseIdx index })
  | _ => none

/-- A write fails. Its handler leaves the queue as it is. -/
def fail (s : Sender α β) (index : ℕ) : Option (Sender α β) :=
  if index < s.writes.length then some { s with writes := s.writes.eraseIdx index } else none

end Sender

/-! ## The order of what is taken -/

/-- **The discipline of the queue.** Either everything pushed has been taken, or the
queue holds what comes behind the items taken in full, and of its first one a part has
been taken. The write of the rest of that one is the only one outstanding, or it has
failed. -/
inductive InOrder (layout : α → List β) (pushed : List α) (s : Sender α β) : Prop
  | idle (queue_eq : s.queue = []) (writes_eq : s.writes = [])
      (taken_eq : s.taken = (pushed.map layout).flatten)
  | sending (done rest : List α) (front : α) (first left : List β)
      (queue_eq : s.queue = front :: rest) (writes_eq : s.writes = [left] ∨ s.writes = [])
      (pushed_eq : pushed = done ++ front :: rest) (layout_eq : layout front = first ++ left)
      (taken_eq : s.taken = (done.map layout).flatten ++ first)

variable {layout : α → List β} {pushed : List α} {s next : Sender α β}

theorem inOrder_empty : InOrder layout [] (Sender.empty : Sender α β) := .idle rfl rfl rfl

/-- **What the transport has taken is a prefix of what was pushed.** -/
theorem InOrder.taken_prefix (ordered : InOrder layout pushed s) :
    s.taken <+: (pushed.map layout).flatten := by
  cases ordered with
  | idle _ _ taken_eq => exact taken_eq ▸ List.prefix_refl _
  | sending done rest front first left _ _ pushed_eq layout_eq taken_eq =>
      refine ⟨left ++ (rest.map layout).flatten, ?_⟩
      simp only [taken_eq, pushed_eq, List.map_append, List.map_cons, List.flatten_append,
        List.flatten_cons, layout_eq, List.append_assoc]

/-- **At most one write is outstanding.** -/
theorem InOrder.length_writes_le (ordered : InOrder layout pushed s) : s.writes.length ≤ 1 := by
  cases ordered with
  | idle _ writes_eq _ => simp [writes_eq]
  | sending _ _ _ _ _ _ writes_eq _ _ _ => rcases writes_eq with eq | eq <;> simp [eq]

/-- With an empty queue everything has been taken. -/
theorem InOrder.taken_of_empty (ordered : InOrder layout pushed s) (empty : s.queue = []) :
    s.taken = (pushed.map layout).flatten := by
  cases ordered with
  | idle _ _ taken_eq => exact taken_eq
  | sending _ _ _ _ _ queue_eq _ _ _ _ => simp [queue_eq] at empty

/-- The outstanding write is what is left of the first item of the queue. -/
theorem InOrder.of_getElem? {index : ℕ} {piece : List β} (ordered : InOrder layout pushed s)
    (found : s.writes[index]? = some piece) :
    index = 0 ∧ s.writes = [piece] ∧ ∃ done rest front first, s.queue = front :: rest ∧
      pushed = done ++ front :: rest ∧ layout front = first ++ piece ∧
      s.taken = (done.map layout).flatten ++ first := by
  cases ordered with
  | idle _ writes_eq _ => simp [writes_eq] at found
  | sending done rest front first left queue_eq writes_eq pushed_eq layout_eq taken_eq =>
      rcases writes_eq with one | none_
      · rw [one] at found
        obtain ⟨inside, rfl⟩ := List.getElem?_eq_some_iff.mp found
        obtain rfl : index = 0 := Nat.lt_one_iff.mp inside
        exact ⟨rfl, one, done, rest, front, first, queue_eq, pushed_eq, layout_eq, taken_eq⟩
      · simp [none_] at found

/-- What the transport has not been given yet of what is queued. -/
def Sender.remaining (layout : α → List β) (s : Sender α β) : ℕ :=
  s.writes.flatten.length + (s.queue.tail.flatMap layout).length

/-! ## What each operation keeps -/

/-- Only a transfer has the transport take anything. -/
@[simp] theorem taken_push (item : α) : (s.push layout item).taken = s.taken := by
  unfold Sender.push Sender.writeFront
  dsimp only
  split
  · rfl
  · split <;> rfl

@[simp] theorem taken_written : (s.written layout).taken = s.taken := by
  unfold Sender.written Sender.writeFront
  dsimp only
  split
  · rfl
  · split <;> rfl

theorem InOrder.push (ordered : InOrder layout pushed s) (item : α) :
    InOrder layout (pushed ++ [item]) (s.push layout item) := by
  cases ordered with
  | idle queue_eq writes_eq taken_eq =>
      refine .sending pushed [] item [] (layout item) ?_ (Or.inl ?_) rfl rfl ?_
      · simp [Sender.push, Sender.writeFront, queue_eq]
      · simp [Sender.push, Sender.writeFront, queue_eq, writes_eq]
      · simp [Sender.push, Sender.writeFront, queue_eq, taken_eq]
  | sending done rest front first left queue_eq writes_eq pushed_eq layout_eq taken_eq =>
      refine .sending done (rest ++ [item]) front first left ?_ ?_ ?_ layout_eq ?_
      · simp [Sender.push, queue_eq]
      · simpa [Sender.push, queue_eq] using writes_eq
      · simp [pushed_eq]
      · simp [Sender.push, queue_eq, taken_eq]

theorem transfer_eq_some {index count : ℕ} :
    s.transfer index count = some next ↔
      ∃ left, s.writes[index]? = some left ∧ 0 < count ∧ count ≤ left.length ∧
        next = { s with
          writes := s.writes.set index (left.drop count)
          taken := s.taken ++ left.take count } := by
  simp only [Sender.transfer, Option.bind_eq_some_iff, Option.ite_none_right_eq_some,
    Option.some.injEq, and_assoc, eq_comm (a := next)]

theorem InOrder.transfer {index count : ℕ} (ordered : InOrder layout pushed s)
    (moved : s.transfer index count = some next) : InOrder layout pushed next := by
  obtain ⟨piece, found, -, -, rfl⟩ := transfer_eq_some.mp moved
  obtain ⟨rfl, one, done, rest, front, first, queue_eq, pushed_eq, layout_eq, taken_eq⟩ :=
    ordered.of_getElem? found
  refine .sending done rest front (first ++ piece.take count) (piece.drop count) queue_eq
    (Or.inl ?_) pushed_eq ?_ ?_
  · simp [one]
  · rw [List.append_assoc, List.take_append_drop, layout_eq]
  · simp [taken_eq]

/-- A transfer is of something. -/
theorem InOrder.remaining_transfer {index count : ℕ} (ordered : InOrder layout pushed s)
    (moved : s.transfer index count = some next) :
    next.remaining layout + count = s.remaining layout ∧ 0 < count ∧ next.queue = s.queue ∧
      next.taken.length = s.taken.length + count ∧ (next.writes = [] ↔ s.writes = []) := by
  obtain ⟨piece, found, positive, enough, rfl⟩ := transfer_eq_some.mp moved
  obtain ⟨rfl, one, -⟩ := ordered.of_getElem? found
  refine ⟨?_, positive, rfl, ?_, ?_⟩
  · simp [Sender.remaining, one]
    omega
  · simp [Nat.min_eq_left enough]
  · simp

/-- What is queued is remaining. -/
theorem Sender.remaining_push (layout : α → List β) (s : Sender α β) (item : α) :
    (s.push layout item).remaining layout = s.remaining layout + (layout item).length ∧
      (s.push layout item).queue = s.queue ++ [item] := by
  obtain ⟨queue, writes, taken⟩ := s
  cases queue with
  | nil => simp [Sender.push, Sender.writeFront, Sender.remaining]
  | cons front rest =>
      simp only [Sender.push, Sender.remaining, List.isEmpty_cons, Bool.not_false, if_true,
        List.cons_append, List.tail_cons, List.flatMap_append, List.length_append,
        List.flatMap_singleton, and_true]
      omega

theorem complete_eq_some {index : ℕ} :
    s.complete layout index = some next ↔
      s.writes[index]? = some [] ∧
        next = Sender.written layout { s with writes := s.writes.eraseIdx index } := by
  unfold Sender.complete
  split
  · rename_i found
    simp [found, eq_comm]
  · rename_i other
    constructor
    · intro impossible
      cases impossible
    · rintro ⟨found, -⟩
      exact absurd found other

theorem InOrder.complete {index : ℕ} (ordered : InOrder layout pushed s)
    (completed : s.complete layout index = some next) : InOrder layout pushed next := by
  obtain ⟨found, rfl⟩ := complete_eq_some.mp completed
  obtain ⟨rfl, one, done, rest, front, first, queue_eq, pushed_eq, layout_eq, taken_eq⟩ :=
    ordered.of_getElem? found
  have whole : s.taken = ((done ++ [front]).map layout).flatten := by
    simp [taken_eq, layout_eq]
  cases rest with
  | nil =>
      refine .idle ?_ ?_ ?_
      · simp [Sender.written, queue_eq]
      · simp [Sender.written, queue_eq, one]
      · simp [Sender.written, queue_eq, whole, pushed_eq]
  | cons second rest =>
      refine .sending (done ++ [front]) rest second [] (layout second) ?_ (Or.inl ?_) ?_ rfl ?_
      · simp [Sender.written, Sender.writeFront, queue_eq]
      · simp [Sender.written, Sender.writeFront, queue_eq, one]
      · simp [pushed_eq]
      · simp [Sender.written, Sender.writeFront, queue_eq, whole]

/-- Completing a write takes an item from the queue, and another write is asked for
unless that was the last one. -/
theorem InOrder.remaining_complete {index : ℕ} (ordered : InOrder layout pushed s)
    (completed : s.complete layout index = some next) :
    next.remaining layout = s.remaining layout ∧ next.queue.length + 1 = s.queue.length ∧
      (next.queue ≠ [] → next.writes ≠ []) := by
  obtain ⟨found, rfl⟩ := complete_eq_some.mp completed
  obtain ⟨rfl, one, done, rest, front, first, queue_eq, -⟩ := ordered.of_getElem? found
  cases rest with
  | nil => simp [Sender.written, Sender.remaining, queue_eq, one]
  | cons second rest =>
      simp [Sender.written, Sender.writeFront, Sender.remaining, queue_eq, one]

theorem fail_eq_some {index : ℕ} :
    s.fail index = some next ↔
      index < s.writes.length ∧ next = { s with writes := s.writes.eraseIdx index } := by
  unfold Sender.fail
  rw [Option.ite_none_right_eq_some, Option.some.injEq, eq_comm (a := next)]

theorem InOrder.fail {index : ℕ} (ordered : InOrder layout pushed s)
    (failed : s.fail index = some next) : InOrder layout pushed next := by
  obtain ⟨inside, rfl⟩ := fail_eq_some.mp failed
  obtain ⟨piece, found⟩ : ∃ piece, s.writes[index]? = some piece :=
    ⟨_, List.getElem?_eq_getElem inside⟩
  obtain ⟨rfl, one, done, rest, front, first, queue_eq, pushed_eq, layout_eq, taken_eq⟩ :=
    ordered.of_getElem? found
  refine .sending done rest front first _ queue_eq (Or.inr ?_) pushed_eq layout_eq taken_eq
  simp [one]

end SendQueue
