import VirtualAgent.TcpSession

/-!
# Malformed frames

A header is well formed when it is, between blanks, the digits of a length that a body
can have (`statedLength_eq_some`). The session should pass on the bodies of the
well-formed frames a stream starts with and leave at the first header that is not well
formed.

`decode_header` is what should tell the two apart, but it only compares what `atoi`
returns with the largest length, and `atoi` returns zero for what is no number. A
header of letters is taken for the header of an empty body, and everything behind it is
framed anew (`letters_are_accepted`). `ends_at_malformed_iff` gives the streams on
which the session does what it should: those whose malformed header happens to be read
as a negative number or one that is too large, and whose bodies have neither a zero
byte nor the largest length.
-/

set_option autoImplicit false

namespace VirtualAgent

open CText Outcome Framing RawMessage TcpSession

/-- The length that a well-formed header states. -/
def statedLength (header : CString) : Option ℕ :=
  let text := header.dropWhile isSpace
  let digits := text.takeWhile isDigit
  if digits ≠ [] ∧ (text.dropWhile isDigit).all isSpace ∧ digitsValue 10 digits ≤ maxBodyLength
  then some (digitsValue 10 digits)
  else none

/-- **A well-formed header is digits between blanks.** -/
theorem statedLength_eq_some {header : CString} {length : ℕ} :
    statedLength header = some length ↔
      ∃ leading digits trailing : CString, header = leading ++ (digits ++ trailing) ∧
        (∀ c ∈ leading, isSpace c = true) ∧ digits ≠ [] ∧ (∀ c ∈ digits, isDigit c = true) ∧
        (∀ c ∈ trailing, isSpace c = true) ∧ digitsValue 10 digits = length ∧
        length ≤ maxBodyLength := by
  constructor
  · intro stated
    unfold statedLength at stated
    dsimp only at stated
    split at stated
    · rename_i wellFormed
      obtain ⟨nonempty, blank, inRange⟩ := wellFormed
      cases stated
      refine ⟨header.takeWhile isSpace, _, (header.dropWhile isSpace).dropWhile isDigit, ?_,
        fun c member => List.mem_takeWhile_imp member, nonempty,
        fun c member => List.mem_takeWhile_imp member, List.all_eq_true.mp blank, rfl, inRange⟩
      rw [List.takeWhile_append_dropWhile, List.takeWhile_append_dropWhile]
    · cases stated
  · rintro ⟨leading, digits, trailing, rfl, blank, nonempty, decimals, ended, rfl, inRange⟩
    obtain ⟨c, rest, rfl⟩ := List.exists_cons_of_ne_nil nonempty
    have text : (leading ++ (c :: rest ++ trailing)).dropWhile isSpace = c :: rest ++ trailing := by
      rw [List.dropWhile_append_of_pos blank, List.cons_append, List.dropWhile_cons,
        isSpace_eq_false_of_isDigit (decimals c List.mem_cons_self)]
      rfl
    obtain ⟨scanned, remaining⟩ := scan_digits decimals fun next head =>
      isDigit_eq_false_of_isSpace (ended next (List.mem_of_mem_head? head))
    unfold statedLength
    dsimp only
    rw [text, scanned, remaining,
      if_pos ⟨List.cons_ne_nil _ _, List.all_eq_true.mpr ended, inRange⟩]

/-- `decode_header` reads a well-formed header as it should. -/
theorem decodedLength_of_stated {header : CString} {length : ℕ}
    (stated : statedLength header = some length) : decodedLength header = some length := by
  obtain ⟨leading, digits, trailing, rfl, blank, nonempty, decimals, ended, rfl, inRange⟩ :=
    statedLength_eq_some.mp stated
  have absent : 0 ∉ leading ++ (digits ++ trailing) := by
    intro member
    rcases List.mem_append.mp member with first | later
    · exact absurd (blank 0 first) (by decide)
    · rcases List.mem_append.mp later with middle | last
      · exact absurd (decimals 0 middle) (by decide)
      · exact absurd (ended 0 last) (by decide)
  have small : digitsValue 10 digits ≤ 512 := inRange
  have read := strtol_of_digits blank nonempty decimals fun next head =>
    isDigit_eq_false_of_isSpace (ended next (List.mem_of_mem_head? head))
  have converted : sizeT (atoi (upToNul (leading ++ (digits ++ trailing)))) =
      digitsValue 10 digits := by
    rw [upToNul_eq_self.mpr absent,
      atoi_of_strtol (n := digitsValue 10 digits) (by omega) (by rw [read]; omega), sizeT]
    omega
  unfold decodedLength
  rw [converted, if_pos inRange]

/-- `decode_header` refuses what `atoi` reads as a negative number or as one that is too
large. -/
theorem decodedLength_eq_none {header : CString} :
    decodedLength header = none ↔
      atoi (upToNul header) < 0 ∨ (maxBodyLength : ℤ) < atoi (upToNul header) := by
  obtain ⟨low, high⟩ := atoi_bounds (upToNul header)
  unfold decodedLength sizeT maxBodyLength
  split
  · constructor
    · intro impossible
      cases impossible
    · omega
  · constructor
    · omega
    · intro _
      rfl

/-- The bytes go on with a header that is not well formed. -/
def MalformedNext (rest : CString) : Prop :=
  headerLength ≤ rest.length ∧ statedLength (rest.take headerLength) = none

/-- The session passes on the bodies of the well-formed frames, and it leaves, asking for
no further byte, when a malformed header follows them. -/
def EndsAtMalformed (memory : Buffer (headerLength + maxBodyLength)) (stream : CString)
    (bodies : List CString) (rest : CString) : Prop :=
  ∃ final left, (start memory).consume stream = .ok (final, bodies, left) ∧
    (MalformedNext rest ↔ final.joined = false ∧ final.reading = none)

/-- A complete frame that the session finds where no well-formed one is has a malformed
header. -/
theorem nextFrame_decoded_eq_none {rest : CString}
    (complete : nextFrame headerLength statedLength rest = none)
    (refused : MalformedNext rest → decodedLength (rest.take headerLength) = none) :
    nextFrame headerLength decodedLength rest = none := by
  unfold nextFrame at complete ⊢
  split
  · rfl
  · rename_i long
    rw [if_neg long] at complete
    cases stated : statedLength (rest.take headerLength) with
    | none => rw [refused ⟨Nat.not_lt.mp long, stated⟩, Option.bind_none]
    | some length =>
        rw [stated] at complete
        rw [decodedLength_of_stated stated]
        exact complete

section Division

variable {stream rest : CString} {bodies : List CString}

/-- The session finds the well-formed frames, and possibly more frames in the rest. -/
theorem decodedFrames_append (frames : Frames headerLength statedLength stream bodies rest)
    {more : List CString} {after : CString}
    (later : Frames headerLength decodedLength rest more after) :
    Frames headerLength decodedLength stream (bodies ++ more) after :=
  frames.append (fun _ _ _ stated => decodedLength_of_stated stated) later

/-- When the session passes on these bodies only, they are plain, and it finds no frame in
the rest. -/
theorem plain_of_consume (frames : Frames headerLength statedLength stream bodies rest)
    {memory : Buffer (headerLength + maxBodyLength)} {final : TcpSession} {left : CString}
    (consumed : (start memory).consume stream = .ok (final, bodies, left)) :
    (∀ body ∈ bodies, body.length < maxBodyLength ∧ 0 ∉ body) ∧ Ends rest final left := by
  have divided : ∃ more after, Frames headerLength decodedLength rest more after :=
    exists_frames (by decide) rest
  obtain ⟨more, after, later⟩ := divided
  have whole := decodedFrames_append frames later
  have room : ∀ body ∈ bodies ++ more, body.length < maxBodyLength := by
    by_contra crowded
    push Not at crowded
    rw [consume_overrun whole crowded (awaitsHeader_start memory)] at consumed
    cases consumed
  obtain ⟨_, _, passed, ends⟩ := consume_frames whole room (awaitsHeader_start memory)
  rw [consumed] at passed
  simp only [Except.ok.injEq, Prod.mk.injEq] at passed
  obtain ⟨rfl, messages, rfl⟩ := passed
  -- nothing more was passed on, so the session found no further frame
  have noMore : more = [] := by
    have count := congrArg List.length messages
    rw [List.length_map, List.length_append] at count
    exact List.length_eq_zero_iff.mp (by omega)
  subst noMore
  rw [List.append_nil] at messages room
  cases later
  refine ⟨?_, ends⟩
  intro body member
  exact ⟨room body member, map_upToNul_eq_self.mp messages.symm body member⟩

/-- A header that the session refuses is malformed, so it leaves where it should when it
refuses the malformed one. -/
theorem malformedNext_iff
    (refused : MalformedNext rest → decodedLength (rest.take headerLength) = none) :
    MalformedNext rest ↔
      headerLength ≤ rest.length ∧ decodedLength (rest.take headerLength) = none := by
  constructor
  · intro malformed
    exact ⟨malformed.1, refused malformed⟩
  · rintro ⟨long, notAccepted⟩
    refine ⟨long, ?_⟩
    cases stated : statedLength (rest.take headerLength) with
    | none => rfl
    | some length =>
        rw [decodedLength_of_stated stated] at notAccepted
        cases notAccepted

end Division

/-- **Where the session ends as it should.** It passes on the well-formed frames and
leaves at a malformed header exactly when no body of a well-formed frame has a zero
byte or the largest length, and the malformed header, if there is one, is read as a
negative number or as one that is too large. -/
theorem ends_at_malformed_iff {stream rest : CString} {bodies : List CString}
    (frames : Frames headerLength statedLength stream bodies rest)
    (memory : Buffer (headerLength + maxBodyLength)) :
    EndsAtMalformed memory stream bodies rest ↔
      (∀ body ∈ bodies, body.length < maxBodyLength ∧ 0 ∉ body) ∧
        (MalformedNext rest →
          atoi (upToNul (rest.take headerLength)) < 0 ∨
            (maxBodyLength : ℤ) < atoi (upToNul (rest.take headerLength))) := by
  simp only [← decodedLength_eq_none]
  constructor
  · rintro ⟨final, left, consumed, leaves⟩
    obtain ⟨plain, ends⟩ := plain_of_consume frames consumed
    refine ⟨plain, ?_⟩
    intro malformed
    exact (ends.left_iff.mp (leaves.mp malformed)).2
  · rintro ⟨plain, refused⟩
    have later : Frames headerLength decodedLength rest [] rest :=
      .done (nextFrame_decoded_eq_none frames.rest_complete refused)
    have whole := decodedFrames_append frames later
    rw [List.append_nil] at whole
    obtain ⟨final, left, consumed, ends⟩ :=
      consume_frames whole (fun body member => (plain body member).1) (awaitsHeader_start memory)
    rw [map_upToNul_eq_self.mpr fun body member => (plain body member).2] at consumed
    refine ⟨final, left, consumed, ?_⟩
    rw [malformedNext_iff refused, ends.left_iff]

/-- A header that is read as a negative number ends the session. -/
theorem ends_at_negative_length :
    EndsAtMalformed (Buffer.zeros _) (ascii "   411|2-1  11|3") [ascii "11|2"]
      (ascii "-1  11|3") :=
  (ends_at_malformed_iff (.frame (by decide +kernel) (.done (by decide +kernel))) _).mpr
    ⟨by decide +kernel, fun _ => Or.inl (by decide +kernel)⟩

/-- **Letters are accepted as a header.** They are taken for the header of an empty body,
and the bytes behind them are passed on as a command. -/
theorem letters_are_accepted :
    Frames headerLength statedLength (ascii "abcd   411|2") [] (ascii "abcd   411|2") ∧
      ¬ EndsAtMalformed (Buffer.zeros _) (ascii "abcd   411|2") [] (ascii "abcd   411|2") ∧
      ∃ final, (start (Buffer.zeros _)).consume (ascii "abcd   411|2") =
        .ok (final, [[], ascii "11|2"], []) ∧ final.joined = true := by
  have computed : ((start (Buffer.zeros _)).consume (ascii "abcd   411|2")).toOption.any
      (fun result => decide (result.2 = ([[], ascii "11|2"], []) ∧ result.1.joined = true)) =
        true := by
    decide +kernel
  obtain ⟨⟨final, messages, left⟩, done, values⟩ := (Option.any_eq_true _ _).mp computed
  obtain ⟨same, joined⟩ := of_decide_eq_true values
  cases same
  have consumed := toOption_eq_some.mp done
  refine ⟨.done (by decide +kernel), ?_, final, consumed, joined⟩
  rintro ⟨_, _, other, -⟩
  rw [consumed] at other
  cases other

end VirtualAgent
