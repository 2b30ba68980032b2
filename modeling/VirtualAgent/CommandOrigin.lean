import VirtualAgent.CommandLine
import VirtualAgent.EventOrder
import VirtualAgent.Progress
import VirtualAgent.Provenance

/-!
# Where a command comes from

The commands for tc are made of a name, a rate and a delay that a message brings, and of a
factor. The name, the rate and the delay also go to the interface table, from which every
update cycle makes further commands, while messages change the table and the factors.

`commands_as_asked` says that no command is made up on the way. In every interleaving of the
threads, each command is one for what some message asked of an interface, with a factor that
is one or was received; and while the names have no blanks, its argument vector belongs to
no other command (`arguments_injective`), so tc is asked for what it says. The commands of one
call are not always for one message: the pass reads the rate and the delay of an entry one
after the other (`rate_and_delay_of_two_messages`).
-/

set_option autoImplicit false

namespace VirtualAgent

open ExactFloat CText Outcome Transition
open Std (ExtTreeMap)

/-! ## Commands told apart by their arguments -/

theorem decimal_injective : Function.Injective decimal := by
  intro n m same
  rw [← digitsValue_decimal n, ← digitsValue_decimal m, same]

/-- No digits begin with a sign. -/
theorem cons_sign_ne_decimal (text : CString) (n : ℕ) : 45 :: text ≠ decimal n := by
  intro same
  have digit := isDigit_of_mem_decimal (n := n) (c := 45) (same ▸ List.mem_cons_self)
  cases digit

theorem printLong_injective : Function.Injective printLong := by
  intro n m same
  unfold printLong at same
  split at same <;> split at same
  · have equal := decimal_injective (List.cons.inj same).2
    omega
  · exact absurd same (cons_sign_ne_decimal _ _)
  · exact absurd same.symm (cons_sign_ne_decimal _ _)
  · have equal := decimal_injective same
    omega

theorem htbWords_inj {minor minor' : ℕ} {rate rate' burst burst' cburst cburst' : ℤ}
    (same : htbWords minor rate burst cburst = htbWords minor' rate' burst' cburst') :
    minor = minor' ∧ rate = rate' ∧ burst = burst' ∧ cburst = cburst' := by
  simp only [htbWords, List.cons.injEq, List.append_cancel_left_eq, and_true, true_and] at same
  obtain ⟨sameMinor, sameRate, sameBurst, sameCburst⟩ := same
  exact ⟨decimal_injective sameMinor, printLong_injective sameRate,
    printLong_injective sameBurst, printLong_injective sameCburst⟩

theorem netemWords_inj {handle handle' : ℕ} {delay delay' : ℤ}
    (same : netemWords handle delay = netemWords handle' delay') :
    handle = handle' ∧ delay = delay' := by
  simp only [netemWords, List.cons.injEq, List.append_cancel_right_eq, and_true,
    true_and] at same
  exact ⟨decimal_injective same.1, printLong_injective same.2⟩

/-- **The words of an action tell it from all others.** -/
theorem words_injective {action other : TcAction} (toDev : action.wordsToDev = other.wordsToDev)
    (fromDev : action.wordsFromDev = other.wordsFromDev) : action = other := by
  have apart : ascii "handle" ≠ ascii "parent" := by decide
  cases action with
  | replaceRoot =>
      cases other with
      | replaceRoot => rfl
      | replaceNetem parent handle delay => exact absurd (List.cons.inj fromDev).1 apart
      | _ => simp [TcAction.wordsToDev, ascii] at toDev
  | replaceClass minor rate burst cburst =>
      cases other with
      | replaceClass minor' rate' burst' cburst' =>
          obtain ⟨rfl, rfl, rfl, rfl⟩ := htbWords_inj (List.cons.inj (List.cons.inj fromDev).2).2
          rfl
      | _ => simp [TcAction.wordsToDev, ascii] at toDev
  | replaceNetem parent handle delay =>
      cases other with
      | replaceRoot => exact absurd (List.cons.inj fromDev).1.symm apart
      | replaceNetem parent' handle' delay' =>
          obtain ⟨under, behind⟩ := List.cons.inj (List.cons.inj fromDev).2
          obtain rfl := decimal_injective (List.append_cancel_left under)
          obtain ⟨rfl, rfl⟩ := netemWords_inj behind
          rfl
      | _ => simp [TcAction.wordsToDev, ascii] at toDev
  | replaceFilter source flowid =>
      cases other with
      | replaceFilter source' flowid' =>
          simp only [TcAction.wordsFromDev, List.cons.injEq, List.append_cancel_left_eq, and_true,
            true_and] at fromDev
          obtain ⟨rfl, flows⟩ := fromDev
          rw [decimal_injective flows]
      | _ => simp [TcAction.wordsToDev, ascii] at toDev
  | changeClass minor rate burst cburst =>
      cases other with
      | changeClass minor' rate' burst' cburst' =>
          obtain ⟨rfl, rfl, rfl, rfl⟩ := htbWords_inj fromDev
          rfl
      | _ => simp [TcAction.wordsToDev, ascii] at toDev
  | changeNetem handle delay =>
      cases other with
      | changeNetem handle' delay' =>
          obtain ⟨rfl, rfl⟩ := netemWords_inj fromDev
          rfl
      | _ => simp [TcAction.wordsToDev, ascii] at toDev
  | deleteRoot =>
      cases other with
      | deleteRoot => rfl
      | _ => simp [TcAction.wordsToDev, ascii] at toDev

theorem length_wordsToDev (action : TcAction) : action.wordsToDev.length = 4 := by
  cases action <;> rfl

/-- **No two commands have the same arguments.** -/
theorem arguments_injective : Function.Injective TcCommand.arguments := by
  intro command other same
  have lengths := (length_wordsToDev command.action).trans (length_wordsToDev other.action).symm
  rw [TcCommand.arguments, TcCommand.arguments] at same
  obtain ⟨toDev, rest⟩ := List.append_inj same lengths
  obtain ⟨dev, fromDev⟩ := List.cons.inj rest
  have action := words_injective toDev fromDev
  cases command
  cases other
  cases dev
  cases action
  rfl

/-! ## What is asked of an interface -/

/-- An interface, with the rate and the delay asked for. -/
structure Shape where
  ifaceName : CString
  rate : ℤ
  delay : ℤ
  deriving DecidableEq

/-- What a statement asks of an interface. -/
def Statement.shapes : Statement → List Shape
  | .ifaceAttrTableSet ifaceName rate delay => [⟨ifaceName, rate, delay⟩]
  | .changeInterfaceAttribute ifaceName rate delay => [⟨ifaceName, rate, delay⟩]
  | .replaceInterfaceAttribute ifaceName rate delay _ => [⟨ifaceName, rate, delay⟩]
  | _ => []

/-- What a message received asks of interfaces. -/
def ThreadAction.shapes (action : ThreadAction) : List Shape :=
  action.received.toList.flatMap fun received =>
    (statementsOf received.message).flatMap Statement.shapes

/-- The factor a statement names itself. -/
def Statement.scales : Statement → List LongDouble
  | .replaceInterfaceAttribute _ _ _ tdf => [tdf]
  | _ => []

/-- Messages replace what an interface has with the factor one. -/
theorem scales_of_mem {message : Message} {statement : Statement}
    (member : statement ∈ message.statements) : ∀ tdf ∈ statement.scales, tdf = 1 := by
  intro tdf scaled
  cases message with
  | replaceInterface ifaceName rate delay =>
      rcases List.mem_cons.mp member with rfl | member
      · cases scaled
      · obtain rfl := List.mem_singleton.mp member
        exact List.mem_singleton.mp scaled
  | configure settings =>
      obtain ⟨setting, -, rfl⟩ := List.mem_map.mp member
      cases scaled
  | changeInterface ifaceName rate delay | suspendVMs | resumeVMs =>
      rcases List.mem_cons.mp member with rfl | member
      · cases scaled
      · obtain rfl := List.mem_singleton.mp member
        cases scaled
  | _ =>
      obtain rfl := List.mem_singleton.mp member
      cases scaled

/-- A command that makes an interface what is asked for, under some factor, or removes what
it has. -/
def TcCommand.Serves (S : Shape → Prop) (P : LongDouble → Prop) (command : TcCommand) : Prop :=
  ∃ shape tdf, S shape ∧ P tdf ∧
    command ∈ commandsFor shape.ifaceName shape.rate shape.delay tdf

section

variable {S : Shape → Prop} {P : LongDouble → Prop} {shape : Shape} {tdf : LongDouble}
  {command : TcCommand}

/-- A changing command has a rate or a delay in it, not both. -/
theorem mem_change_cases {name : CString} {rate delay : ℤ}
    (member : command ∈ changeInterfaceAttribute name rate delay tdf) :
    (∀ other, command ∈ changeInterfaceAttribute name rate other tdf) ∨
      ∀ other, command ∈ changeInterfaceAttribute name other delay tdf := by
  simp only [changeInterfaceAttribute, changeActions, List.map_cons, List.map_nil,
    List.mem_cons, List.not_mem_nil, or_false] at member ⊢
  rcases member with rfl | rfl | rfl | rfl | rfl
  · exact Or.inl fun _ => Or.inl rfl
  · exact Or.inl fun _ => Or.inr (Or.inl rfl)
  · exact Or.inl fun _ => Or.inr (Or.inr (Or.inl rfl))
  · exact Or.inr fun _ => Or.inr (Or.inr (Or.inr (Or.inl rfl)))
  · exact Or.inr fun _ => Or.inr (Or.inr (Or.inr (Or.inr rfl)))

/-- A rate that is asked of an interface, and a delay that is. -/
def AsksRate (S : Shape → Prop) (name : CString) (rate : ℤ) : Prop := ∃ delay, S ⟨name, rate, delay⟩

def AsksDelay (S : Shape → Prop) (name : CString) (delay : ℤ) : Prop :=
  ∃ rate, S ⟨name, rate, delay⟩

/-- The rate and the delay may be asked for by two messages. -/
theorem serves_of_change {name : CString} {rate delay : ℤ} (asksRate : AsksRate S name rate)
    (asksDelay : AsksDelay S name delay) (fine : P tdf)
    (member : command ∈ changeInterfaceAttribute name rate delay tdf) : command.Serves S P := by
  rcases mem_change_cases member with anyDelay | anyRate
  · obtain ⟨other, asked⟩ := asksRate
    exact ⟨_, tdf, asked, fine,
      List.mem_append_left _ (List.mem_append_right _ (anyDelay other))⟩
  · obtain ⟨other, asked⟩ := asksDelay
    exact ⟨_, tdf, asked, fine,
      List.mem_append_left _ (List.mem_append_right _ (anyRate other))⟩

theorem serves_of_replace (asked : S shape) (fine : P tdf)
    (member : command ∈ replaceInterfaceAttribute shape.ifaceName shape.rate shape.delay tdf) :
    command.Serves S P :=
  ⟨shape, tdf, asked, fine, List.mem_append_left _ (List.mem_append_left _ member)⟩

theorem serves_of_delete {name : CString} {rate : ℤ} (asksRate : AsksRate S name rate)
    (fine : P tdf) (member : command ∈ deleteInterfaceAttribute name) : command.Serves S P := by
  obtain ⟨delay, asked⟩ := asksRate
  exact ⟨_, tdf, asked, fine, List.mem_append_right _ member⟩

/-! ## The agent -/

/-- Every entry of the interface table has been asked for, and every command serves what
has been. -/
structure Agent.Shaped (S : Shape → Prop) (P : LongDouble → Prop) (a : Agent) : Prop where
  entries : ∀ (name : CString) (entry : InterfaceAttributeEntry),
    a.ifaceAttrTable.ifaceAttrMap[name]? = some (some entry) →
    S ⟨name, entry.rate, entry.delay⟩
  issued : ∀ command ∈ a.tcCommands, command.Serves S P

namespace Agent.Shaped

variable {a next : Agent}

theorem initial (created : HostReading) : (Agent.initial created).Shaped S P where
  entries := by simp [Agent.initial]
  issued := nofun

theorem congr (shaped : a.Shaped S P) (table_eq : next.ifaceAttrTable = a.ifaceAttrTable)
    (commands_eq : next.tcCommands = a.tcCommands) : next.Shaped S P where
  entries := table_eq ▸ shaped.entries
  issued := commands_eq ▸ shaped.issued

/-- More commands are issued. -/
theorem issue (shaped : a.Shaped S P) (commands : List TcCommand)
    (serve : ∀ command ∈ commands, command.Serves S P) :
    Agent.Shaped S P { a with tcCommands := a.tcCommands ++ commands } where
  entries := shaped.entries
  issued := fun command member => (List.mem_append.mp member).elim (shaped.issued command)
    (serve command)

/-- An entry is written. -/
theorem write (shaped : a.Shaped S P) (name : CString) (entry : InterfaceAttributeEntry)
    (asked : S ⟨name, entry.rate, entry.delay⟩) :
    Agent.Shaped S P { a with
      ifaceAttrTable := ⟨a.ifaceAttrTable.ifaceAttrMap.insert name (some entry)⟩ } where
  entries := by
    intro other found there
    rw [ExtTreeMap.getElem?_insert] at there
    split at there
    case isTrue same =>
      obtain rfl := Std.LawfulEqCmp.eq_of_compare same
      cases there
      exact asked
    case isFalse => exact shaped.entries other found there
  issued := shaped.issued

/-- **A statement serves what its message asks for**, under the latest factor or its own. -/
theorem exec (shaped : a.Shaped S P) (latest : P a.tdfTable.latestTdf) {statement : Statement}
    (asked : ∀ shape ∈ statement.shapes, S shape) (scaled : ∀ tdf ∈ statement.scales, P tdf)
    {host : HostReading} {notified : Bool}
    (done : statement.exec a host = .ok (next, notified)) : next.Shaped S P := by
  cases statement with
  | tdfTableSet hostname tdf =>
      obtain ⟨tdfTable, -, rfl⟩ := exec_tdfTableSet.mp done
      exact shaped.congr rfl rfl
  | ifaceAttrTableSet ifaceName rate delay =>
      cases done
      exact shaped.write ifaceName _ (asked ⟨ifaceName, rate, delay⟩ List.mem_cons_self)
  | setFlagKeep ifaceName flagKeep =>
      obtain ⟨table, set, rfl, -⟩ := exec_setFlagKeep.mp done
      obtain ⟨entry, found, rfl⟩ := InterfaceAttributeTable.setFlagKeep_eq_ok.mp set
      exact shaped.write ifaceName { entry with flagKeep } (shaped.entries ifaceName entry found)
  | changeInterfaceAttribute ifaceName rate delay =>
      cases done
      have here := asked ⟨ifaceName, rate, delay⟩ List.mem_cons_self
      exact shaped.issue _ fun command member =>
        serves_of_change ⟨delay, here⟩ ⟨rate, here⟩ latest member
  | replaceInterfaceAttribute ifaceName rate delay tdf =>
      cases done
      have here := asked ⟨ifaceName, rate, delay⟩ List.mem_cons_self
      have fine := scaled tdf List.mem_cons_self
      exact shaped.issue _ fun command member => serves_of_replace here fine member
  | _ =>
      cases done
      exact shaped.congr rfl rfl

/-- An entry is erased. -/
theorem erase (shaped : a.Shaped S P) (name : CString) :
    Agent.Shaped S P { a with ifaceAttrTable := a.ifaceAttrTable.erase name } where
  entries := by
    intro other found there
    rw [InterfaceAttributeTable.erase, ExtTreeMap.getElem?_erase] at there
    split at there
    · cases there
    · exact shaped.entries other found there
  issued := shaped.issued

end Agent.Shaped

/-! ## The threads -/

/-- What a message received asks for, its statements ask for, and replace with factor one. -/
theorem asked_of_received (one : P 1) (received : Received)
    (asked : ∀ shape ∈ (statementsOf received.message).flatMap Statement.shapes, S shape) :
    (∀ statement ∈ statementsOf received.message, ∀ shape ∈ statement.shapes, S shape) ∧
      ∀ statement ∈ statementsOf received.message, ∀ tdf ∈ statement.scales, P tdf := by
  refine ⟨fun statement member shape inside => asked shape ?_, ?_⟩
  · exact List.mem_flatMap.mpr ⟨statement, member, inside⟩
  · intro statement member tdf inside
    cases parsed : received.message with
    | none =>
        rw [parsed] at member
        cases member
    | some message =>
        rw [parsed] at member
        rw [scales_of_mem member tdf inside]
        exact one

/-- What the pass has read of an entry has been asked for. -/
def PassPc.Shaped (S : Shape → Prop) : PassPc → Prop
  | .delay name rateRead => AsksRate S name rateRead
  | .change name rateRead delayRead => AsksRate S name rateRead ∧ AsksDelay S name delayRead
  | .delete name => ∃ anyRate, AsksRate S name anyRate
  | .idle | .test _ | .rate _ | .erase _ _ => True

/-- The factors, the entries, the commands, what the pass has read and what the message under
way asks for are all of them in order. -/
structure World.Shaped (S : Shape → Prop) (P : LongDouble → Prop) (w : World) : Prop where
  factors : w.AllTdf P
  pass : w.vtPc.passPc.Shaped S
  agent : w.agent.Shaped S P
  asked : ∀ statement ∈ w.io, ∀ shape ∈ statement.shapes, S shape
  scaled : ∀ statement ∈ w.io, ∀ tdf ∈ statement.scales, P tdf

namespace World.Shaped

variable {w next : World}

theorem initial (one : P 1) (created host : HostReading) :
    (World.initial created host).Shaped S P :=
  ⟨allTdf_initial one created host, trivial, .initial created, nofun, nofun⟩

/-- **A statement of the pass serves what the entries ask for.** -/
theorem passStatement (shaped : w.Shaped S P) {pc pc' : PassPc}
    {ifaceAttrTable : InterfaceAttributeTable} {commands : List TcCommand}
    (at_pc : w.vtPc = .updateInterfaceAttribute pc)
    (performed : VirtualAgent.passStatement w.agent.tdfTable.latestTdf w.agent.ifaceAttrTable pc =
      some (pc', ifaceAttrTable, commands)) :
    pc'.Shaped S ∧ Agent.Shaped S P { w.agent with
      ifaceAttrTable, tcCommands := w.agent.tcCommands ++ commands } := by
  have latest := shaped.factors.agent.latestTdf
  have pass := shaped.pass
  rw [at_pc] at pass
  cases passStatement_effect performed with
  | begins | ends | keeps name entry found keep =>
      exact ⟨trivial, shaped.agent.issue [] nofun⟩
  | drops name entry found drop =>
      exact ⟨⟨_, _, shaped.agent.entries name entry found⟩, shaped.agent.issue [] nofun⟩
  | rate name entry found =>
      exact ⟨⟨_, shaped.agent.entries name entry found⟩, shaped.agent.issue [] nofun⟩
  | delay name rate entry found =>
      exact ⟨⟨pass, _, shaped.agent.entries name entry found⟩, shaped.agent.issue [] nofun⟩
  | change name rate delay =>
      exact ⟨trivial, shaped.agent.issue _ fun command member =>
        serves_of_change pass.1 pass.2 latest member⟩
  | delete name =>
      obtain ⟨rate, asksRate⟩ := pass
      exact ⟨trivial, shaped.agent.issue _ fun command member =>
        serves_of_delete asksRate latest member⟩
  | erase name it => exact ⟨trivial, (shaped.agent.erase name).issue [] nofun⟩

/-- The virtual time thread serves the table. -/
theorem virtualTime (shaped : w.Shaped S P) (stepped : w.virtualTime = some next) :
    next.vtPc.passPc.Shaped S ∧ next.agent.Shaped S P := by
  cases virtualTime_effect stepped with
  | updateInterfaceAttribute pc pc' ifaceAttrTable commands at_pc performed =>
      rw [(VtPc.afterPass_place pc').2]
      exact shaped.passStatement at_pc performed
  | test at_pc =>
      refine ⟨?_, shaped.agent.congr rfl rfl⟩
      cases w.isRunning <;> trivial
  | _ => exact ⟨trivial, shaped.agent.congr rfl rfl⟩

/-- **Every step serves what has been asked for.** -/
theorem step (shaped : w.Shaped S P) (one : P 1) {action : ThreadAction}
    (brought : ∀ tdf ∈ action.brings, P tdf) (asked : ∀ shape ∈ action.shapes, S shape)
    (stepped : threadStep w action = some next) : next.Shaped S P := by
  have factors := shaped.factors.step brought stepped
  cases threadStep_effect stepped with
  | idle agent_eq vtPc_eq io_eq _ _ _ =>
      exact ⟨factors, vtPc_eq ▸ shaped.pass, agent_eq ▸ shaped.agent, io_eq ▸ shaped.asked,
        io_eq ▸ shaped.scaled⟩
  | receivedUdp msg _ =>
      obtain ⟨askedNow, scaled⟩ := asked_of_received one (.udp msg)
        (by simpa [ThreadAction.shapes, ThreadAction.received] using asked)
      exact ⟨factors, shaped.pass, shaped.agent, askedNow, scaled⟩
  | receivedTcp msg _ =>
      obtain ⟨askedNow, scaled⟩ := asked_of_received one (.tcp msg)
        (by simpa [ThreadAction.shapes, ThreadAction.received] using asked)
      exact ⟨factors, shaped.pass, shaped.agent, askedNow, scaled⟩
  | message statement rest agent notified io_eq _ executed =>
      have here : statement ∈ w.io := io_eq ▸ List.mem_cons_self
      have later : ∀ other ∈ rest, other ∈ w.io :=
        fun other member => io_eq ▸ List.mem_cons_of_mem _ member
      refine ⟨factors, ?_, shaped.agent.exec shaped.factors.agent.latestTdf
        (shaped.asked statement here) (shaped.scaled statement here) executed,
        fun other member => shaped.asked other (later other member),
        fun other member => shaped.scaled other (later other member)⟩
      cases notified with
      | false => exact shaped.pass
      | true =>
          change w.vtPc.notified.passPc.Shaped S
          rw [VtPc.notified_passPc]
          exact shaped.pass
  | virtualTime stepped =>
      have io_eq := (virtualTime_frame stepped).2.1
      obtain ⟨pass, agent⟩ := shaped.virtualTime stepped
      exact ⟨factors, pass, agent, io_eq ▸ shaped.asked, io_eq ▸ shaped.scaled⟩
  | started _ => exact ⟨factors, trivial, shaped.agent, shaped.asked, shaped.scaled⟩
  | notified _ =>
      refine ⟨factors, ?_, shaped.agent, shaped.asked, shaped.scaled⟩
      change w.vtPc.notified.passPc.Shaped S
      rw [VtPc.notified_passPc]
      exact shaped.pass

end World.Shaped

end

/-! ## What tc is asked for -/

/-- The commands for an interface are for its device, and their sources are words. -/
theorem dev_of_mem_commandsFor {iface : CString} {rate delay : ℤ} {tdf : LongDouble}
    {command : TcCommand} (member : command ∈ commandsFor iface rate delay tdf) :
    command.dev = iface ∧ command.action.SourceIsWord := by
  rw [commandsFor_eq] at member
  obtain ⟨action, among, rfl⟩ := List.mem_map.mp member
  exact ⟨rfl, sourceIsWord_of_mem among⟩

/-- **Every command is one that was asked for, and tc is asked for just that command.** In
every interleaving of the threads and the messages, each command for tc sets a rate or a
delay that some message received asks of its interface, under a factor that is one or was
received, or removes what the interface has. While the names of interfaces have no blanks,
its argument vector is that of no other command. -/
theorem commands_as_asked (created host : HostReading) (actions : List ThreadAction) (w : World)
    (ran : run threadStep (World.initial created host) actions = some w)
    (command : TcCommand) (issued : command ∈ w.agent.tcCommands) :
    command.Serves (fun shape => ∃ action ∈ actions, shape ∈ action.shapes)
        (fun tdf => tdf = 1 ∨ ∃ action ∈ actions, tdf ∈ action.brings) ∧
      ((∀ action ∈ actions, ∀ shape ∈ action.shapes, IsArgument shape.ifaceName) →
        ∀ other : TcCommand,
          other.arguments = newargv command.cmdString ↔ other = command) := by
  have shaped : w.Shaped (fun shape => ∃ action ∈ actions, shape ∈ action.shapes)
      (fun tdf => tdf = 1 ∨ ∃ action ∈ actions, tdf ∈ action.brings) := by
    have within : Meets threadStep (fun _ action => action ∈ actions)
        (World.initial created host) actions := meets_of_forall (fun _ member _ => member) _
    refine run_invariant_of_meets (World.Shaped _ _) ?_ (.initial (Or.inl rfl) created host)
      within ran
    intro w action next shaped among stepped
    exact shaped.step (Or.inl rfl) (fun tdf brought => Or.inr ⟨action, among, brought⟩)
      (fun shape asks => ⟨action, among, asks⟩) stepped
  have serves := shaped.agent.issued command issued
  refine ⟨serves, fun names other => ?_⟩
  obtain ⟨shape, tdf, ⟨action, among, asks⟩, -, member⟩ := serves
  obtain ⟨dev, isWord⟩ := dev_of_mem_commandsFor member
  obtain ⟨nonempty, noNul, noBlank⟩ := names action among shape asks
  rw [← dev] at nonempty noNul noBlank
  rw [(newargv_eq_arguments_iff nonempty noNul isWord).mpr noBlank]
  exact arguments_injective.eq_iff

/-- The delay of an interface that is set while a cycle takes another factor. -/
theorem commands_as_asked_setDuringCycle :
    ∃ w, run threadStep (World.initial ⟨0, 0⟩ ⟨0, 0⟩) setDuringCycle = some w ∧
      TcCommand.mk (ascii "eth0") (.changeNetem 10 200) ∈ w.agent.tcCommands ∧
      ∀ other : TcCommand, other.arguments =
        newargv (TcCommand.mk (ascii "eth0") (.changeNetem 10 200)).cmdString ↔
          other = ⟨ascii "eth0", .changeNetem 10 200⟩ := by
  obtain ⟨w, ran, issued⟩ :
      ∃ w, run threadStep (World.initial ⟨0, 0⟩ ⟨0, 0⟩) setDuringCycle = some w ∧
        TcCommand.mk (ascii "eth0") (.changeNetem 10 200) ∈ w.agent.tcCommands := by
    apply exists_of_any
    decide +kernel
  exact ⟨w, ran, issued, (commands_as_asked ⟨0, 0⟩ ⟨0, 0⟩ setDuringCycle w ran
    _ issued).2 (by decide +kernel)⟩

/-- An interface is set again when the pass has read its rate. -/
def setBetweenReads : List ThreadAction :=
  startUp ++ [.receiveUdp (ascii "3|eth0|1000|5"), .message, .message] ++
    receive (ascii "11|2") ++ turns 8 ++
    [.receiveUdp (ascii "3|eth0|2000|7"), .message] ++ turns 2

/-- **One call can have the rate of one message and the delay of another.** -/
theorem rate_and_delay_of_two_messages :
    ∃ w, run threadStep (World.initial ⟨0, 0⟩ ⟨0, 0⟩) setBetweenReads = some w ∧
      w.agent.tcCommands =
        changeInterfaceAttribute (ascii "eth0") 1000 5 1 ++
          changeInterfaceAttribute (ascii "eth0") 1000 7 (.ofRat 2) := by
  apply exists_of_any
  decide +kernel

end VirtualAgent
