import VirtualAgent.VirtualTime

/-!
# Malformed commands

A command has a protocol number and the fields that its protocol expects. `udpFields`
and `tcpFields` are the tables of these: for each field whether it is a name or a
number, and of which type.

A command with an unknown protocol number or with the wrong number of fields is ignored
(`udpMessage_isSome_iff`, `tcpMessage_isSome_iff`). The form of a number is checked
nowhere: a field is read with `atoi`, `atoll` or `atof`, and these read something in
every text. So `11|abc` sets the factor to zero (`text_sets_factor_to_zero`). What
holds is that a field acts only through what is read in it
(`malformed_command_changes_nothing`).
-/

set_option autoImplicit false

namespace VirtualAgent

open ExactFloat CText Outcome

/-! ## The fields of a command -/

/-- How a field is read. -/
inductive FieldKind
  | name
  /-- with `atoi` -/
  | int
  /-- with `atoll` -/
  | longLong
  /-- with `atof` -/
  | floating
  deriving DecidableEq

/-- Two texts that a field of the kind does not tell apart. -/
def FieldKind.ReadAlike : FieldKind → CString → CString → Prop
  | .name, text, other => text = other
  | .int, text, other => atoi text = atoi other
  | .longLong, text, other => atoll text = atoll other
  | .floating, text, other => atof text = atof other

/-- The fields behind the number of a UDP protocol. -/
def udpFields : ℤ → Option (List FieldKind)
  | 10 => some [.name, .floating]
  | 3 => some [.name, .longLong, .longLong]
  | _ => none

/-- The fields behind the number of a TCP protocol. -/
def tcpFields : ℤ → Option (List FieldKind)
  | 1 => some [.name, .longLong, .longLong]
  | 2 => some [.name]
  | 11 => some [.floating]
  | 12 => some []
  | 13 => some []
  | 14 => some [.floating, .floating]
  | 20 => some [.floating, .floating, .floating]
  | 21 => some [.floating]
  | 22 => some [.int]
  | 23 => some [.floating]
  | 24 => some []
  | 25 => some []
  | 26 => some []
  | 27 => some []
  | 28 => some []
  | 30 => some []
  | 31 => some []
  | 32 => some [.int]
  | 33 => some [.floating]
  | _ => none

/-- Fields of the given kinds that are read alike, one by one. -/
def FieldsReadAlike : List FieldKind → List CString → List CString → Prop
  | [], [], [] => True
  | kind :: kinds, text :: texts, other :: others =>
      kind.ReadAlike text other ∧ FieldsReadAlike kinds texts others
  | _, _, _ => False

theorem fieldsReadAlike_nil {texts others : List CString} :
    FieldsReadAlike [] texts others ↔ texts = [] ∧ others = [] := by
  cases texts <;> cases others <;> simp [FieldsReadAlike]

theorem fieldsReadAlike_cons {kind : FieldKind} {kinds : List FieldKind}
    {texts others : List CString} :
    FieldsReadAlike (kind :: kinds) texts others ↔
      ∃ text texts' other others', texts = text :: texts' ∧ others = other :: others' ∧
        kind.ReadAlike text other ∧ FieldsReadAlike kinds texts' others' := by
  cases texts <;> cases others <;> simp [FieldsReadAlike]

/-- A UDP command is performed when its number is known and its fields are as many as
the protocol expects. -/
theorem udpMessage_isSome_iff {protocol : ℤ} {fields : List CString} :
    (udpMessage protocol fields).isSome ↔
      (udpFields protocol).map List.length = some fields.length := by
  constructor
  · intro known
    unfold udpMessage at known
    split at known
    case h_3 => cases known
    all_goals rfl
  · intro expected
    unfold udpFields at expected
    split at expected
    case h_3 => cases expected
    all_goals
      rcases fields with _ | ⟨_, _ | ⟨_, _ | ⟨_, _ | _⟩⟩⟩
      all_goals first | rfl | simp at expected

/-- A TCP command is performed when its number is known and its fields are as many as
the protocol expects. -/
theorem tcpMessage_isSome_iff {protocol : ℤ} {fields : List CString} :
    (tcpMessage protocol fields).isSome ↔
      (tcpFields protocol).map List.length = some fields.length := by
  constructor
  · intro known
    unfold tcpMessage at known
    split at known
    case h_20 => cases known
    all_goals rfl
  · intro expected
    unfold tcpFields at expected
    split at expected
    case h_20 => cases expected
    all_goals
      rcases fields with _ | ⟨_, _ | ⟨_, _ | ⟨_, _ | _⟩⟩⟩
      all_goals first | rfl | simp at expected

/-- A UDP command depends on its fields only through what is read in them. -/
theorem udpMessage_congr {protocol : ℤ} {kinds : List FieldKind} {fields others : List CString}
    (known : udpFields protocol = some kinds) (alike : FieldsReadAlike kinds fields others) :
    udpMessage protocol fields = udpMessage protocol others := by
  unfold udpFields at known
  split at known
  case h_3 => cases known
  all_goals
    cases known
    simp only [fieldsReadAlike_cons, fieldsReadAlike_nil, FieldKind.ReadAlike] at alike
    first
    | obtain ⟨_, _, _, _, rfl, rfl, one, _, _, _, _, rfl, rfl, two, rfl, rfl⟩ := alike
      simp only [udpMessage, one, two]
    | obtain ⟨_, _, _, _, rfl, rfl, one, _, _, _, _, rfl, rfl, two, _, _, _, _, rfl, rfl, three,
        rfl, rfl⟩ := alike
      simp only [udpMessage, one, two, three]

/-- A TCP command depends on its fields only through what is read in them. -/
theorem tcpMessage_congr {protocol : ℤ} {kinds : List FieldKind} {fields others : List CString}
    (known : tcpFields protocol = some kinds) (alike : FieldsReadAlike kinds fields others) :
    tcpMessage protocol fields = tcpMessage protocol others := by
  unfold tcpFields at known
  split at known
  case h_20 => cases known
  -- by the number of fields
  all_goals
    cases known
    simp only [fieldsReadAlike_cons, fieldsReadAlike_nil, FieldKind.ReadAlike] at alike
    first
    | obtain ⟨rfl, rfl⟩ := alike
      rfl
    | obtain ⟨_, _, _, _, rfl, rfl, one, rfl, rfl⟩ := alike
      simp only [tcpMessage, one]
    | obtain ⟨_, _, _, _, rfl, rfl, one, _, _, _, _, rfl, rfl, two, rfl, rfl⟩ := alike
      simp only [tcpMessage, one, two]
    | obtain ⟨_, _, _, _, rfl, rfl, one, _, _, _, _, rfl, rfl, two, _, _, _, _, rfl, rfl, three,
        rfl, rfl⟩ := alike
      simp only [tcpMessage, one, two, three]

/-! ## Commands -/

/-- The number that is read in the first field of a message. -/
def protocolNumber (msg : CString) : ℤ := atoi ((splitCompress (· == 124) msg).headD [])

/-- The fields behind it. -/
def fieldsOf (msg : CString) : List CString := (splitCompress (· == 124) msg).tail

theorem parse_eq_cases (cases_ : ℤ → List CString → Option Message) (msg : CString) :
    parse cases_ msg = cases_ (protocolNumber msg) (fieldsOf msg) := by
  obtain ⟨protocol, fields, split, parsed⟩ := parse_eq cases_ msg
  rw [parsed, protocolNumber, fieldsOf, split]
  rfl

/-- The protocol is unknown or expects another number of fields. -/
def WrongFields (kindsOf : ℤ → Option (List FieldKind)) (msg : CString) : Prop :=
  (kindsOf (protocolNumber msg)).map List.length ≠ some (fieldsOf msg).length

/-- The protocol is the same, and each of its fields is read as in the other command. -/
def ReadsLike (kindsOf : ℤ → Option (List FieldKind)) (msg other : CString) : Prop :=
  protocolNumber msg = protocolNumber other ∧
    ∃ kinds, kindsOf (protocolNumber msg) = some kinds ∧
      FieldsReadAlike kinds (fieldsOf msg) (fieldsOf other)

theorem parse_eq_none (kindsOf : ℤ → Option (List FieldKind))
    (cases_ : ℤ → List CString → Option Message)
    (known : ∀ protocol fields, (cases_ protocol fields).isSome ↔
      (kindsOf protocol).map List.length = some fields.length)
    {msg : CString} (wrong : WrongFields kindsOf msg) : parse cases_ msg = none := by
  rw [parse_eq_cases, ← Option.not_isSome_iff_eq_none, known]
  exact wrong

theorem parse_congr (kindsOf : ℤ → Option (List FieldKind))
    (cases_ : ℤ → List CString → Option Message)
    (congr_ : ∀ protocol kinds fields others, kindsOf protocol = some kinds →
      FieldsReadAlike kinds fields others → cases_ protocol fields = cases_ protocol others)
    {msg other : CString} (alike : ReadsLike kindsOf msg other) :
    parse cases_ msg = parse cases_ other := by
  obtain ⟨protocol, kinds, known, fields⟩ := alike
  rw [parse_eq_cases, parse_eq_cases, ← protocol]
  exact congr_ _ _ _ _ known fields

/-- **A command of an unknown protocol or with the wrong number of fields performs no
statement and leaves the whole agent as it was**, the commands issued included. And a
command does what any other one does whose fields are read alike: text that is no
number counts as the number read in it. -/
theorem malformed_command_changes_nothing (a : Agent) (host : HostReading) (msg : CString) :
    (WrongFields udpFields msg →
      statementsOf (parseUdpMsg msg) = [] ∧ (Event.udp msg).perform a = .ok a) ∧
    (WrongFields tcpFields msg →
      statementsOf (parseTcpMsg msg) = [] ∧ (Event.tcp msg host).perform a = .ok a) ∧
    (∀ other, ReadsLike udpFields msg other →
      (Event.udp msg).perform a = (Event.udp other).perform a) ∧
    ∀ other, ReadsLike tcpFields msg other →
      (Event.tcp msg host).perform a = (Event.tcp other host).perform a := by
  have ignored : ∀ parsed : Option Message, parsed = none → statementsOf parsed = [] ∧
      ∀ at_ : HostReading, execAll a at_ (statementsOf parsed) = .ok a := by
    rintro _ rfl
    exact ⟨rfl, fun _ => rfl⟩
  refine ⟨?_, ?_, ?_, ?_⟩
  · intro wrong
    have parsed : parseUdpMsg msg = none :=
      parse_eq_none udpFields udpMessage (fun _ _ => udpMessage_isSome_iff) wrong
    obtain ⟨nothing, unchanged⟩ := ignored _ parsed
    exact ⟨nothing, unchanged _⟩
  · intro wrong
    have parsed : parseTcpMsg msg = none :=
      parse_eq_none tcpFields tcpMessage (fun _ _ => tcpMessage_isSome_iff) wrong
    obtain ⟨nothing, unchanged⟩ := ignored _ parsed
    exact ⟨nothing, unchanged host⟩
  · intro other alike
    simp only [Event.perform, parseUdpMsg,
      parse_congr udpFields udpMessage (fun _ _ _ _ => udpMessage_congr) alike]
  · intro other alike
    simp only [Event.perform, parseTcpMsg,
      parse_congr tcpFields tcpMessage (fun _ _ _ _ => tcpMessage_congr) alike]

/-- A missing field, and text that is no number. -/
theorem malformed_command_changes_nothing_eleven :
    ((Event.tcp (ascii "11") ⟨1, 1⟩).perform (Agent.initial ⟨0, 0⟩) =
        .ok (Agent.initial ⟨0, 0⟩)) ∧
      (Event.tcp (ascii "11|abc") ⟨1, 1⟩).perform (Agent.initial ⟨0, 0⟩) =
        (Event.tcp (ascii "11|0") ⟨1, 1⟩).perform (Agent.initial ⟨0, 0⟩) :=
  ⟨((malformed_command_changes_nothing _ _ _).2.1 (by unfold WrongFields; decide +kernel)).2,
    (malformed_command_changes_nothing _ _ _).2.2.2 _
      ⟨by decide +kernel, [.floating], by decide +kernel, by
        refine fieldsReadAlike_cons.mpr ⟨ascii "abc", [], ascii "0", [], ?_, ?_, ?_, trivial⟩
        · decide +kernel
        · decide +kernel
        · show atof (ascii "abc") = atof (ascii "0")
          decide +kernel⟩⟩

/-! ## The form of a number -/

/-- In full the text of an integer of so many bits. -/
def integerText (bits : ℕ) (text : CString) : Bool :=
  let (negative, digits) := takeSign text
  !digits.isEmpty && digits.all isDigit &&
    (if negative then digitsValue 10 digits ≤ 2 ^ (bits - 1)
      else digitsValue 10 digits < 2 ^ (bits - 1))

/-- In full the text of a decimal number, with an exponent or without. -/
def floatingText (text : CString) : Bool :=
  let (whole, fraction, rest) := takeMantissa isDigit (takeSign text).2
  !(whole ++ fraction).isEmpty &&
    match rest with
    | [] => true
    | c :: exponent => toLower c == 101 && !(takeSign exponent).2.isEmpty &&
        (takeSign exponent).2.all isDigit

/-- The text is in full what a field of the kind should hold. -/
def FieldKind.accepts : FieldKind → CString → Bool
  | .name, _ => true
  | .int, text => integerText 32 text
  | .longLong, text => integerText 64 text
  | .floating, text => floatingText text

/-- A command whose numbers are numbers, with as many fields as its protocol expects. -/
def wellFormedCommand (kindsOf : ℤ → Option (List FieldKind)) (msg : CString) : Bool :=
  integerText 32 ((splitCompress (· == 124) msg).headD []) &&
    (kindsOf (protocolNumber msg)).any fun kinds =>
      kinds.length == (fieldsOf msg).length &&
        (List.zipWith FieldKind.accepts kinds (fieldsOf msg)).all id

example : wellFormedCommand tcpFields (ascii "14|0.5|2e3") = true := by decide +kernel

/-- **Text that is no number sets the factor to zero.** -/
theorem text_sets_factor_to_zero :
    wellFormedCommand tcpFields (ascii "11|abc") = false ∧
      ∃ a, (Event.tcp (ascii "11|abc") ⟨1, 1⟩).perform (Agent.initial ⟨0, 0⟩) = .ok a ∧
        a.tdfTable.latestTdf = .ofRat 0 ∧
        a.tdfTable.latestTdf ≠ (Agent.initial ⟨0, 0⟩).tdfTable.latestTdf := by
  have computed : ((Event.tcp (ascii "11|abc") ⟨1, 1⟩).perform
      (Agent.initial ⟨0, 0⟩)).toOption.any (fun a =>
        decide (a.tdfTable.latestTdf = .ofRat 0 ∧
          a.tdfTable.latestTdf ≠ (Agent.initial ⟨0, 0⟩).tdfTable.latestTdf)) = true := by
    decide +kernel
  obtain ⟨a, done, values⟩ := Transition.exists_of_any computed
  exact ⟨by decide +kernel, a, toOption_eq_some.mp done, values⟩

end VirtualAgent
