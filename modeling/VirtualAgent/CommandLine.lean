import VirtualAgent.MessageProcessor
import VirtualAgent.Library.Buffer

/-!
# The command lines of tc

The functions of `InterfaceConfigurator.cpp` print each command into one string, with the
name of the interface pasted into it. `system4Background` removes the blanks at its ends,
divides it at the runs of blanks, and the fields become the argument vector of the
program.

For a name without a blank the fields are the words the command was meant to have, with
the name as the one argument behind `dev`, for every command of the three functions and
whatever the numbers in it. A name with a blank is divided as well, and what stands behind
the blank becomes a further argument of a command that runs as root: no division gives a
field with a blank in it. So the two are the same exactly for the names without blanks
(`newargv_eq_arguments_iff`), and messages can carry other names
(`blank_name_adds_argument`).

tc finds its device in the argument vector, so names that differ in blanks may be those of
one device. The queueing state of the devices is therefore what the commands as received
leave (`Agent.kernel`).
-/

set_option autoImplicit false

namespace VirtualAgent

open ExactFloat CText

/-! ## Commands as text -/

/-- A `long long` as an output stream prints it. -/
def printLong (n : ℤ) : CString := if n < 0 then 45 :: decimal n.natAbs else decimal n.natAbs

/-- The string that is built for a command. -/
def TcCommand.cmdString : TcCommand → CString
  | ⟨iface, .replaceRoot⟩ =>
      ascii " tc qdisc replace dev " ++ iface ++ ascii " handle 1: root htb default 10"
  | ⟨iface, .replaceClass minor rate burst cburst⟩ =>
      ascii " tc class replace dev " ++ iface ++
        ascii " parent 1: classid 1:" ++ decimal minor ++ ascii " htb rate " ++ printLong rate ++
        ascii " burst " ++ printLong burst ++ ascii " cburst " ++ printLong cburst
  | ⟨iface, .replaceNetem parent handle delay⟩ =>
      ascii " tc qdisc replace dev " ++ iface ++
        ascii " parent 1:" ++ decimal parent ++ ascii " handle " ++ decimal handle ++
        ascii ": netem delay " ++ printLong delay
  | ⟨iface, .replaceFilter source flowid⟩ =>
      ascii " tc filter replace dev " ++ iface ++
        ascii " parent 1: protocol ip prio 1 u32 match ip src " ++ source ++
        ascii " flowid 1:" ++ decimal flowid
  | ⟨iface, .changeClass minor rate burst cburst⟩ =>
      ascii " tc class change dev " ++ iface ++
        ascii " classid 1:" ++ decimal minor ++ ascii " htb rate " ++ printLong rate ++
        ascii " burst " ++ printLong burst ++ ascii " cburst " ++ printLong cburst
  | ⟨iface, .changeNetem handle delay⟩ =>
      ascii " tc qdisc change dev " ++ iface ++
        ascii " handle " ++ decimal handle ++ ascii ": netem delay " ++ printLong delay
  | ⟨iface, .deleteRoot⟩ => ascii " tc qdisc del dev " ++ iface ++ ascii " root"

/-- `InterfaceConfigurator::system4Background`, up to the argument vector it makes. -/
def newargv (cmdString : CString) : List CString :=
  (splitCompress (· == 32) (trim cmdString)).map upToNul

/-! ## Commands as words -/

/-- The words of a command up to `dev`. -/
def TcAction.wordsToDev : TcAction → List CString
  | .replaceRoot => [ascii "tc", ascii "qdisc", ascii "replace", ascii "dev"]
  | .replaceClass _ _ _ _ => [ascii "tc", ascii "class", ascii "replace", ascii "dev"]
  | .replaceNetem _ _ _ => [ascii "tc", ascii "qdisc", ascii "replace", ascii "dev"]
  | .replaceFilter _ _ => [ascii "tc", ascii "filter", ascii "replace", ascii "dev"]
  | .changeClass _ _ _ _ => [ascii "tc", ascii "class", ascii "change", ascii "dev"]
  | .changeNetem _ _ => [ascii "tc", ascii "qdisc", ascii "change", ascii "dev"]
  | .deleteRoot => [ascii "tc", ascii "qdisc", ascii "del", ascii "dev"]

/-- The words of an htb class. -/
def htbWords (minor : ℕ) (rate burst cburst : ℤ) : List CString :=
  [ascii "classid", ascii "1:" ++ decimal minor, ascii "htb", ascii "rate", printLong rate,
    ascii "burst", printLong burst, ascii "cburst", printLong cburst]

/-- The words of a netem qdisc. -/
def netemWords (handle : ℕ) (delay : ℤ) : List CString :=
  [ascii "handle", decimal handle ++ ascii ":", ascii "netem", ascii "delay", printLong delay]

/-- The words of a command behind the device. -/
def TcAction.wordsFromDev : TcAction → List CString
  | .replaceRoot =>
      [ascii "handle", ascii "1:", ascii "root", ascii "htb", ascii "default", ascii "10"]
  | .replaceClass minor rate burst cburst =>
      ascii "parent" :: ascii "1:" :: htbWords minor rate burst cburst
  | .replaceNetem parent handle delay =>
      ascii "parent" :: (ascii "1:" ++ decimal parent) :: netemWords handle delay
  | .replaceFilter source flowid =>
      [ascii "parent", ascii "1:", ascii "protocol", ascii "ip", ascii "prio", ascii "1",
        ascii "u32", ascii "match", ascii "ip", ascii "src", source, ascii "flowid",
        ascii "1:" ++ decimal flowid]
  | .changeClass minor rate burst cburst => htbWords minor rate burst cburst
  | .changeNetem handle delay => netemWords handle delay
  | .deleteRoot => [ascii "root"]

/-- The arguments that a command is meant to have: the device is one of them. -/
def TcCommand.arguments (command : TcCommand) : List CString :=
  command.action.wordsToDev ++ command.dev :: command.action.wordsFromDev

/-- **The string of a command is its words behind blanks.** -/
theorem cmdString_eq (command : TcCommand) :
    command.cmdString = [32] ++ joined 32 command.arguments := by
  obtain ⟨dev, action⟩ := command
  cases action <;>
    simp [TcCommand.cmdString, TcCommand.arguments, TcAction.wordsToDev, TcAction.wordsFromDev,
      htbWords, netemWords, joined, ascii]

/-! ### Words without blanks -/

/-- A character that stands in words only. -/
def isPlain (c : UInt8) : Bool := !isSpace c && c != 0

/-- A word of a command that is not the device. -/
def IsPlainWord (word : CString) : Prop := word ≠ [] ∧ ∀ c ∈ word, isPlain c = true

theorem isPlainWord_iff {word : CString} :
    IsPlainWord word ↔ (!word.isEmpty && word.all isPlain) = true := by
  rw [IsPlainWord, Bool.and_eq_true_iff, List.all_eq_true, Bool.not_eq_true',
    List.isEmpty_eq_false_iff]

instance (word : CString) : Decidable (IsPlainWord word) :=
  decidable_of_iff _ isPlainWord_iff.symm

theorem isSpace_of_isPlain {c : UInt8} (plain : isPlain c = true) : isSpace c = false := by
  simpa using (Bool.and_eq_true_iff.mp plain).1

theorem ne_blank_of_isPlain {c : UInt8} (plain : isPlain c = true) : (c == 32) = false := by
  rw [beq_eq_false_iff_ne]
  rintro rfl
  exact absurd plain (by decide)

theorem ne_zero_of_isPlain {c : UInt8} (plain : isPlain c = true) : c ≠ 0 := by
  rintro rfl
  exact absurd plain (by decide)

theorem isPlain_of_mem_decimal {n : ℕ} {c : UInt8} (member : c ∈ decimal n) :
    isPlain c = true := by
  have digit := isDigit_of_mem_decimal member
  have nonzero : c ≠ 0 := by
    rintro rfl
    exact absurd digit (by decide)
  rw [isPlain, isSpace_eq_false_of_isDigit digit, bne_iff_ne.mpr nonzero]
  rfl

namespace IsPlainWord

theorem append {first second : CString} (isWord : IsPlainWord first)
    (plain : ∀ c ∈ second, isPlain c = true) : IsPlainWord (first ++ second) :=
  ⟨List.append_ne_nil_of_left_ne_nil isWord.1 second,
    List.forall_mem_append.mpr ⟨isWord.2, plain⟩⟩

theorem decimal (n : ℕ) : IsPlainWord (decimal n) :=
  ⟨decimal_ne_nil n, fun _ => isPlain_of_mem_decimal⟩

theorem printLong (n : ℤ) : IsPlainWord (printLong n) := by
  unfold VirtualAgent.printLong
  split
  · exact ⟨List.cons_ne_nil _ _, List.forall_mem_cons.mpr ⟨by decide, (decimal _).2⟩⟩
  · exact decimal n.natAbs

/-- A number behind `1:`. -/
theorem underRoot (minor : ℕ) : IsPlainWord (ascii "1:" ++ CText.decimal minor) :=
  append (by decide) (decimal minor).2

end IsPlainWord

/-- The source of a filter is a word. -/
def TcAction.SourceIsWord : TcAction → Prop
  | .replaceFilter source _ => IsPlainWord source
  | _ => True

theorem isPlainWord_htbWords (minor : ℕ) (rate burst cburst : ℤ) :
    ∀ word ∈ htbWords minor rate burst cburst, IsPlainWord word := by
  simp only [htbWords, List.forall_mem_cons]
  exact ⟨by decide, .underRoot minor, by decide, by decide, .printLong rate, by decide,
    .printLong burst, by decide, .printLong cburst, by simp⟩

theorem isPlainWord_netemWords (handle : ℕ) (delay : ℤ) :
    ∀ word ∈ netemWords handle delay, IsPlainWord word := by
  simp only [netemWords, List.forall_mem_cons]
  have colon : IsPlainWord (ascii ":") := by decide
  exact ⟨by decide, .append (.decimal handle) colon.2, by decide, by decide,
    .printLong delay, by simp⟩

theorem isPlainWord_wordsToDev (action : TcAction) :
    ∀ word ∈ action.wordsToDev, IsPlainWord word := by
  cases action
  all_goals
    simp only [TcAction.wordsToDev]
    decide

theorem isPlainWord_wordsFromDev {action : TcAction} (isWord : action.SourceIsWord) :
    ∀ word ∈ action.wordsFromDev, IsPlainWord word := by
  cases action with
  | replaceRoot => decide
  | replaceClass minor rate burst cburst =>
      exact List.forall_mem_cons.mpr ⟨by decide, List.forall_mem_cons.mpr
        ⟨by decide, isPlainWord_htbWords minor rate burst cburst⟩⟩
  | replaceNetem parent handle delay =>
      exact List.forall_mem_cons.mpr ⟨by decide, List.forall_mem_cons.mpr
        ⟨.underRoot parent, isPlainWord_netemWords handle delay⟩⟩
  | replaceFilter source flowid =>
      simp only [TcAction.wordsFromDev, List.forall_mem_cons]
      exact ⟨by decide, by decide, by decide, by decide, by decide, by decide, by decide,
        by decide, by decide, by decide, isWord, by decide, .underRoot flowid, by simp⟩
  | changeClass minor rate burst cburst => exact isPlainWord_htbWords minor rate burst cburst
  | changeNetem handle delay => exact isPlainWord_netemWords handle delay
  | deleteRoot => decide

/-! ## The argument vector -/

/-- The blanks at the ends of a command's string are the one in front. -/
theorem trim_cmdString {command : TcCommand} (nonempty : command.dev ≠ [])
    (isWord : command.action.SourceIsWord) :
    trim command.cmdString = joined 32 command.arguments := by
  have words := isPlainWord_wordsFromDev isWord
  have filled : ∀ word ∈ command.arguments, word ≠ [] := by
    intro word member
    rcases List.mem_append.mp member with member | member
    · exact (isPlainWord_wordsToDev _ word member).1
    · rcases List.mem_cons.mp member with rfl | member
      · exact nonempty
      · exact (words word member).1
  rw [cmdString_eq]
  refine trim_append (List.forall_mem_singleton.mpr rfl) ?_ ?_
  · intro c found
    have first : c = 116 := by
      obtain ⟨dev, action⟩ := command
      cases action <;> exact (Option.some.inj found).symm
    rw [first]
    decide
  · intro c found
    obtain ⟨word, last, inside⟩ := mem_getLast?_of_joined filled c found
    have behind : word ∈ command.action.wordsFromDev := by
      have some : command.action.wordsFromDev ≠ [] := by
        cases command.action <;> simp [TcAction.wordsFromDev, htbWords, netemWords]
      rw [TcCommand.arguments, List.getLast?_append_of_ne_nil _ (List.cons_ne_nil _ _),
        List.getLast?_cons_of_ne_nil some] at last
      exact List.mem_of_getLast? last
    exact isSpace_of_isPlain ((words word behind).2 c inside)

/-- **When the argument vector is what was meant**: when the device has no blank. -/
theorem newargv_eq_arguments_iff {command : TcCommand} (nonempty : command.dev ≠ [])
    (noNul : 0 ∉ command.dev) (isWord : command.action.SourceIsWord) :
    newargv command.cmdString = command.arguments ↔ 32 ∉ command.dev := by
  have toDev := isPlainWord_wordsToDev command.action
  have fromDev := isPlainWord_wordsFromDev isWord
  rw [newargv, trim_cmdString nonempty isWord]
  constructor
  · intro same blank
    have member : command.dev ∈ command.arguments :=
      List.mem_append_right _ List.mem_cons_self
    rw [← same] at member
    obtain ⟨field, divided, cut⟩ := List.mem_map.mp member
    have inside : 32 ∈ field := (List.takeWhile_sublist _).subset (cut ▸ blank)
    have plain := eq_false_of_mem_splitCompress divided 32 inside
    cases plain
  · intro noBlank
    have areWords : AreWords (· == 32) command.arguments := by
      intro word member
      rcases List.mem_append.mp member with member | member
      · exact ⟨(toDev word member).1,
          fun c inside => ne_blank_of_isPlain ((toDev word member).2 c inside)⟩
      · rcases List.mem_cons.mp member with rfl | member
        · exact ⟨nonempty, fun c inside =>
            beq_eq_false_iff_ne.mpr (ne_of_mem_of_not_mem inside noBlank)⟩
        · exact ⟨(fromDev word member).1,
            fun c inside => ne_blank_of_isPlain ((fromDev word member).2 c inside)⟩
    have whole : ∀ word ∈ command.arguments, 0 ∉ word := by
      intro word member zero
      rcases List.mem_append.mp member with member | member
      · exact ne_zero_of_isPlain ((toDev word member).2 0 zero) rfl
      · rcases List.mem_cons.mp member with rfl | member
        · exact noNul zero
        · exact ne_zero_of_isPlain ((fromDev word member).2 0 zero) rfl
    have some : command.arguments ≠ [] := by simp [TcCommand.arguments]
    rw [splitCompress_joined rfl some areWords, map_upToNul_eq_self.mpr whole]

/-! ## The commands of the configurator -/

/-- The name of an interface as a message can carry it: a C string without bars. -/
structure IfaceName where
  text : CString
  nonempty : text ≠ []
  noBar : 124 ∉ text
  noNul : 0 ∉ text

/-- The commands of the three functions for an interface. -/
def commandsFor (iface : CString) (rate delay : ℤ) (tdf : LongDouble) : List TcCommand :=
  replaceInterfaceAttribute iface rate delay tdf ++ changeInterfaceAttribute iface rate delay tdf ++
    deleteInterfaceAttribute iface

theorem commandsFor_eq (iface : CString) (rate delay : ℤ) (tdf : LongDouble) :
    commandsFor iface rate delay tdf =
      (replaceActions rate delay tdf ++ changeActions rate delay tdf ++
        [TcAction.deleteRoot]).map (TcCommand.mk iface) := by
  simp only [commandsFor, replaceInterfaceAttribute, changeInterfaceAttribute,
    deleteInterfaceAttribute, List.map_append, List.map_cons, List.map_nil]

/-- The sources of the filters are words. -/
theorem sourceIsWord_of_mem {rate delay : ℤ} {tdf : LongDouble} {action : TcAction}
    (member : action ∈ replaceActions rate delay tdf ++ changeActions rate delay tdf ++
      [TcAction.deleteRoot]) : action.SourceIsWord := by
  have sources : ∀ action ∈ replaceActions rate delay tdf ++ changeActions rate delay tdf ++
      [TcAction.deleteRoot], action.SourceIsWord := by
    simp only [replaceActions, changeActions, List.forall_mem_append, List.forall_mem_cons,
      TcAction.SourceIsWord]
    exact ⟨⟨⟨trivial, trivial, trivial, trivial, trivial, trivial, by decide, by decide, by simp⟩,
      trivial, trivial, trivial, trivial, trivial, by simp⟩, trivial, by simp⟩
  exact sources action member

/-- **A command reaches tc as the argument vector it was built for exactly when the name of
the interface has no blank**, whatever the rate, the delay and the factor. -/
theorem arguments_reach_tc_iff (name : IfaceName) (rate delay : ℤ) (tdf : LongDouble)
    {command : TcCommand} (issued : command ∈ commandsFor name.text rate delay tdf) :
    newargv command.cmdString = command.arguments ↔ 32 ∉ name.text := by
  rw [commandsFor_eq] at issued
  obtain ⟨action, member, rfl⟩ := List.mem_map.mp issued
  exact newargv_eq_arguments_iff name.nonempty name.noNul (sourceIsWord_of_mem member)

/-- An interface that can be shaped. -/
def eth0 : IfaceName := ⟨ascii "eth0", by decide, by decide, by decide⟩

theorem arguments_reach_tc_eth0 :
    newargv (TcCommand.mk (ascii "eth0") .deleteRoot).cmdString =
        (TcCommand.mk (ascii "eth0") .deleteRoot).arguments ↔ 32 ∉ ascii "eth0" :=
  arguments_reach_tc_iff eth0 1000 0 1 (by decide +kernel)

/-- A name with a blank, as it stands in a message. -/
def blankName : IfaceName := ⟨ascii "eth0 root", by decide, by decide, by decide⟩

/-- **A part of a name with a blank becomes an argument of its own.** -/
theorem blank_name_adds_argument :
    parseTcpMsg (ascii "1|eth0 root|1000|0") = some (.replaceInterface blankName.text 1000 0) ∧
      (TcCommand.mk blankName.text .deleteRoot) ∈ commandsFor blankName.text 1000 0 1 ∧
      (TcCommand.mk blankName.text .deleteRoot).arguments =
        [ascii "tc", ascii "qdisc", ascii "del", ascii "dev", ascii "eth0 root", ascii "root"] ∧
      newargv (TcCommand.mk blankName.text .deleteRoot).cmdString =
        [ascii "tc", ascii "qdisc", ascii "del", ascii "dev", ascii "eth0", ascii "root",
          ascii "root"] ∧
      newargv (TcCommand.mk blankName.text .deleteRoot).cmdString ≠
        (TcCommand.mk blankName.text .deleteRoot).arguments := by
  refine ⟨?_, ?_, ?_, ?_, ?_⟩
  all_goals decide +kernel

/-! ## The devices -/

/-- The command as tc receives it: its device is the argument behind `dev`. -/
def TcCommand.received (command : TcCommand) : TcCommand :=
  { command with dev := (newargv command.cmdString).getD 4 [] }

/-- The queueing state of the devices, none of which is shaped at first. -/
def Agent.kernel (a : Agent) : Kernel :=
  Kernel.performAll (fun _ => none) (a.tcCommands.map TcCommand.received)

/-- A name that is one argument of a command. -/
def IsArgument (name : CString) : Prop := name ≠ [] ∧ 0 ∉ name ∧ 32 ∉ name

instance : DecidablePred IsArgument := fun name =>
  inferInstanceAs (Decidable (name ≠ [] ∧ 0 ∉ name ∧ 32 ∉ name))

/-- **tc receives a command for the device that the agent means** if its name is one
argument. -/
theorem received_eq {name : CString} (isArgument : IsArgument name) {rate delay : ℤ}
    {tdf : LongDouble} {action : TcAction}
    (member : action ∈ replaceActions rate delay tdf ++ changeActions rate delay tdf ++
      [TcAction.deleteRoot]) : TcCommand.received ⟨name, action⟩ = ⟨name, action⟩ := by
  have argv : newargv (TcCommand.cmdString ⟨name, action⟩) = TcCommand.arguments ⟨name, action⟩ :=
    (newargv_eq_arguments_iff isArgument.1 isArgument.2.1 (sourceIsWord_of_mem member)).mpr
      isArgument.2.2
  have device : (TcCommand.arguments ⟨name, action⟩).getD 4 [] = name := by
    cases action <;> rfl
  rw [TcCommand.received, argv, device]

theorem map_received {name : CString} (isArgument : IsArgument name) (rate delay : ℤ)
    (tdf : LongDouble) {actions : List TcAction}
    (members : ∀ action ∈ actions, action ∈ replaceActions rate delay tdf ++
      changeActions rate delay tdf ++ [TcAction.deleteRoot]) :
    (actions.map (TcCommand.mk name)).map TcCommand.received = actions.map (TcCommand.mk name) := by
  rw [List.map_map]
  exact List.map_congr_left fun action member => received_eq isArgument (members action member)

end VirtualAgent
