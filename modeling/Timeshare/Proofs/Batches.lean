import Timeshare.Batch
import Timeshare.Proofs.Cuts
import Timeshare.Proofs.Idle
import Timeshare.Proofs.Refusals
import Timeshare.Proofs.Spelling

/-!
# Batches and the shell

What a batch does can be typed at the shell: a `load` for each file, with the words of its text on
one line, then `runall` and `tick`. Programs are read word by word, so both load the same bytes, and
until the first tick the two sessions are even equal. A batch stops ticking once the machine is idle
and `tick` does not, which only the clock can tell.
-/
namespace Timeshare

/-- A console that keeps the frames, in order, and passes over what is written. -/
def Console.recorder : Console (List Frame) where
  draw frames f := (none, frames ++ [f])
  write frames _ := (none, frames)

/-! ## Lines -/

namespace Command

/-- The line that loads a program, whatever way its text is spaced. -/
def loadLine (text : String) : String := "load " ++ joined (words text)

/-- The line that ticks a number of times. -/
def tickLine (count : Nat) : String := "tick " ++ toString count

/-- The lines that do what a batch does. -/
def batchLines (texts : List String) (maxTicks : Nat) : List String :=
  texts.map loadLine ++ ["runall", tickLine maxTicks]

theorem parse_loadLine (text : String) : parse (loadLine text) = load (joined (words text)) := by
  rw [loadLine, parse_load, words_joined]

theorem parse_runAll : parse "runall" = runAll := by decide +kernel

theorem parse_tickLine {count : Nat} (h : count < UInt64.size) :
    parse (tickLine count) = tick count := by
  have hname : IsWord "tick".toList := isWord_of_all (by decide) (by decide)
  have hlower : lowerCase "tick" = "tick" := by decide +kernel
  have hcount : words (toString count) = [toString count] :=
    words_of_isWord (Numeral.isWord_toString count)
  have hread : parseTick [toString count] = some (tick count) := by
    rw [parseTick, Numeral.number?_toString h]
    rfl
  have hline := parse_named hname hlower (toString count)
  rw [hcount] at hline
  refine hline.trans ?_
  show orUsage _ (parseTick [toString count]) = _
  rw [hread]
  rfl

end Command

/-! ## Loads -/

namespace Machine

/-- A machine with `count` free partitions of `size` bytes. -/
structure Roomy (m : Machine) (size count : Nat) : Prop where
  housed : m.Housed
  partitionSize_eq : m.memory.partitionSize = size
  freeCount_eq : m.memory.freeCount = count

theorem Booted.roomy {s : Settings} {m : Machine} (h : Booted s m) :
    m.Roomy s.partitionSize s.partitions := by
  refine ⟨h.housed, h.partitionSize_eq, ?_⟩
  have hfree := h.housed.freeCount_add
  rw [h.residents_eq, Memory.partitionCount, h.inUse_eq, Array.size_replicate] at hfree
  exact hfree

/-- A load takes one of the free partitions. -/
theorem Roomy.load {m : Machine} {size count : Nat} (h : m.Roomy size (count + 1))
    {program : List UInt8} (hl : program.length ≤ size) :
    ∃ loaded, m.load program = .ok loaded ∧ loaded.value.2.Roomy size count := by
  obtain ⟨loaded, hload⟩ := exists_load (h.partitionSize_eq.symm ▸ hl)
    (h.freeCount_eq.symm ▸ Nat.succ_ne_zero count)
  obtain ⟨-, -, partition, hloaded⟩ := load_eq_ok hload
  have hhoused := h.housed.load hloaded
  refine ⟨loaded, hload, hhoused, ?_, ?_⟩
  · rw [hloaded.partitionSize_eq, h.partitionSize_eq]
  · have hfree := h.housed.freeCount_load hloaded
    rw [h.freeCount_eq] at hfree
    omega

end Machine

namespace Session

section

variable {σ : Type} (c : Console σ) (s : Session σ)

/-- A load by a request is a load. -/
theorem session_perform_load (program : List UInt8) :
    (s.perform c (.load program)).2 = (s.load c program).2 := by
  cases hload : s.machine.load program with
  | error reason => simp only [perform, Machine.perform, load, hload, bind, Except.bind]
  | ok loaded =>
    simp only [perform, Machine.perform, load, hload, bind, Except.bind, pure, Except.pure,
      Functor.map_map]

theorem load_eq {program : List UInt8} {loaded : Traced (Pid × Machine)}
    (h : s.machine.load program = .ok loaded) :
    s.load c program = (.ok loaded.value.1, s.follow c (Prod.snd <$> loaded)) := by
  rw [load, h]

end

/-! ## On the recorder -/

section

variable {s : Session (List Frame)}

/-- The shell goes on behind every command but the one that ends it. -/
theorem run_recorder_cons {line : String} {command : Command} (h : Command.parse line = command)
    (hquit : command ≠ .quit) (rest : List (Option String)) :
    Shell.run .recorder s (some line :: rest) =
      Shell.run .recorder (command.execute .recorder s).2 rest := by
  have hrespond : Shell.respond .recorder s line = (.ok true, (command.execute .recorder s).2) := by
    rw [Shell.respond_eq, h, ← Command.goesOn_execute hquit]
    rfl
  have hprompted : Shell.prompted .recorder s = s := rfl
  rw [Shell.run_cons_some rfl]
  simp only [Shell.answered, hprompted, hrespond]

/-- The line that loads a program loads what a batch loads. -/
theorem run_recorder_load {text : String} {program : List UInt8}
    (h : ProgramText.parse text = .ok program) (rest : List (Option String)) :
    Shell.run .recorder s (some (Command.loadLine text) :: rest) =
      Shell.run .recorder (s.load .recorder program).2 rest := by
  rw [run_recorder_cons (Command.parse_loadLine text) (by simp)]
  simp only [Command.execute, ProgramText.parse_joined, h]
  rw [Command.session_attempt, session_perform_load]

/-- Files and the lines for their texts leave the same session. -/
theorem loads_agree {files : Files} {paths texts : List String} {size count : Nat}
    (hroom : s.machine.Roomy size count) (hcount : texts.length ≤ count)
    (hfiles : List.Forall₂ (fun path text => files.text path = .ok text) paths texts)
    (hfits : ∀ text ∈ texts, ∃ program, ProgramText.parse text = .ok program ∧
      program.length ≤ size) :
    ∃ loaded, s.loadFiles .recorder files paths = (none, loaded) ∧
      ∀ rest, Shell.run .recorder s ((texts.map Command.loadLine).map some ++ rest) =
        Shell.run .recorder loaded rest := by
  induction hfiles generalizing s count with
  | nil => exact ⟨s, rfl, fun _ => rfl⟩
  | @cons path text paths texts hread _ ih =>
    obtain ⟨program, hparse, hl⟩ := hfits text List.mem_cons_self
    obtain ⟨count, rfl⟩ := Nat.exists_eq_add_one.2 (Nat.lt_of_lt_of_le (Nat.succ_pos _) hcount)
    obtain ⟨loaded, hload, hleft⟩ := hroom.load hl
    have hprogram : files.program path = .ok program := by
      rw [Files.program, hread]
      exact hparse
    have hnext : (s.follow .recorder (Prod.snd <$> loaded)).machine.Roomy size count := by
      rw [machine_follow]
      exact hleft
    obtain ⟨last, hfiles, hlines⟩ := ih hnext (Nat.le_of_succ_le_succ hcount)
      fun text htext => hfits text (List.mem_cons_of_mem _ htext)
    refine ⟨last, ?_, fun rest => ?_⟩
    · rw [loadFiles, hprogram]
      simp only [load_eq .recorder s hload]
      exact hfiles
    · rw [List.map_cons, List.map_cons, List.cons_append, run_recorder_load hparse,
        load_eq .recorder s hload]
      exact hlines rest

end

/-- **Batches and the shell agree.** Where the texts of the files spell programs that fit, and there
are partitions enough, a batch loads all of them, and the lines that say the same leave the shell at
its prompt. Then the machines differ in their clocks at most, and the display was called the same
way. -/
theorem batch_agrees_with_shell {settings : Settings} {threshold : Option Level}
    {start : Session (List Frame)} (hboot : boot .recorder settings [] threshold = .ok start)
    {files : Files} {paths texts : List String}
    (hfiles : List.Forall₂ (fun path text => files.text path = .ok text) paths texts)
    (hfits : ∀ text ∈ texts, ∃ program, ProgramText.parse text = .ok program ∧
      program.length ≤ settings.partitionSize)
    (hroom : texts.length ≤ settings.partitions) {maxTicks : Nat} (hm : maxTicks < UInt64.size) :
    ∃ loaded typed : Session (List Frame),
      start.loadFiles .recorder files paths = (none, loaded) ∧
      Shell.run .recorder start ((Command.batchLines texts maxTicks).map some) = (none, typed) ∧
      (∃ clock, typed.machine = { (loaded.runBatch .recorder maxTicks).machine with clock }) ∧
      typed.screen = (loaded.runBatch .recorder maxTicks).screen := by
  have hroomy : start.machine.Roomy settings.partitionSize settings.partitions :=
    (booted_of_boot .recorder hboot).roomy
  obtain ⟨loaded, hloaded, hlines⟩ := loads_agree hroomy hroom hfiles hfits
  obtain ⟨hclock, hscreen⟩ := ticks_agree_with_settle .recorder maxTicks
    (loaded.act .recorder .runAll)
  refine ⟨loaded, _, hloaded, ?_, hclock, hscreen⟩
  rw [Command.batchLines, List.map_append, hlines, List.map_cons, List.map_singleton,
    run_recorder_cons Command.parse_runAll (by simp),
    run_recorder_cons (Command.parse_tickLine hm) (by simp)]
  rfl

/-- Two programs that end before the ticks are spent, one of them on two lines. -/
theorem batch_agrees_with_shell_small :
    let start : Session (List Frame) := { machine := Machine.small.value, screen := [] }
    let files : Files := fun path =>
      if path = "first" then .ok "EA\n  e800".toUTF8 else .ok "c8 00".toUTF8
    boot .recorder Machine.smallSettings [] none = .ok start ∧
      files.text "first" = .ok "EA\n  e800" ∧ files.text "second" = .ok "c8 00" ∧
      ∃ loaded typed : Session (List Frame),
        start.loadFiles .recorder files ["first", "second"] = (none, loaded) ∧
        Shell.run .recorder start
          [some "load EA e800", some "load c8 00", some "runall", some "tick 20"] = (none, typed) ∧
        (∃ clock, typed.machine = { (loaded.runBatch .recorder 20).machine with clock }) ∧
        typed.screen = (loaded.runBatch .recorder 20).screen := by
  intro start files
  have hboot : boot .recorder Machine.smallSettings [] none = .ok start := rfl
  have hfirst : files.text "first" = .ok "EA\n  e800" := by decide +kernel
  have hsecond : files.text "second" = .ok "c8 00" := by decide +kernel
  have hlines : Command.batchLines ["EA\n  e800", "c8 00"] 20 =
      ["load EA e800", "load c8 00", "runall", "tick 20"] := by decide +kernel
  have hfits : ∀ text ∈ ["EA\n  e800", "c8 00"], ∃ program,
      ProgramText.parse text = .ok program ∧
        program.length ≤ Machine.smallSettings.partitionSize := by
    rw [List.forall_mem_cons, List.forall_mem_singleton]
    constructor
    · exact ⟨[0xEA, 0xE8, 0x00], by decide +kernel, by decide⟩
    · exact ⟨[0xC8, 0x00], by decide +kernel, by decide⟩
  have hagree := batch_agrees_with_shell hboot (.cons hfirst (.cons hsecond .nil)) hfits
    (by decide) (show 20 < UInt64.size by decide)
  rw [hlines] at hagree
  exact ⟨hboot, hfirst, hsecond, hagree⟩

end Session

end Timeshare
