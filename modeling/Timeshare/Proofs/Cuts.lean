import Timeshare.Proofs.Displays

/-!
# Writers that fill up

The shell and the display share a writer. If it takes a number of bytes only, what it holds is a cut
through what a writer without a limit would hold. The two sides notice differently: a frame that is
lost is passed over, and the shell ends at the first text of its own that does not fit. The next
prompt does not fit either, so the shell ends after the command at which the cut falls, with all of
that command carried out.
-/
namespace Timeshare

namespace Writer

/-- The writer that took the first `limit` bytes of what `w` holds and fails for `reason` when it is
given more. -/
def cut (limit : Nat) (reason : String) (w : Writer) : Writer where
  written := w.written.extract 0 limit
  room := some (limit - w.written.size)
  reason := reason

theorem cut_empty (limit : Nat) (reason : String) :
    cut limit reason {} = { room := some limit, reason } := by
  have hwritten : ByteArray.empty.extract 0 limit = .empty :=
    ByteArray.extract_eq_empty_iff.2 (Nat.min_le_right _ _)
  rw [cut, hwritten]
  rfl

/-- The writer has no limit and holds what was written at the start and some more. -/
structure Grown (start : ByteArray) (w : Writer) : Prop where
  room_eq : w.room = none
  written_eq : ∃ bytes, w.written = start ++ bytes

section

variable {limit : Nat} {reason : String} {start : ByteArray} {w w' : Writer}

theorem Grown.of_room_eq_none (h : w.room = none) : w.Grown w.written :=
  ⟨h, .empty, ByteArray.append_empty.symm⟩

theorem Grown.trans (h : w.Grown start) (h' : w'.Grown w.written) : w'.Grown start := by
  obtain ⟨bytes, hbytes⟩ := h.written_eq
  obtain ⟨more, hmore⟩ := h'.written_eq
  refine ⟨h'.room_eq, bytes ++ more, ?_⟩
  rw [hmore, hbytes, ByteArray.append_assoc]

theorem Grown.size_le (h : w.Grown start) : start.size ≤ w.written.size := by
  obtain ⟨bytes, hbytes⟩ := h.written_eq
  rw [hbytes, ByteArray.size_append]
  exact Nat.le_add_right _ _

/-- Nothing that is written behind a full cut changes it. -/
theorem Grown.cut_eq (h : w'.Grown w.written) (hfull : limit ≤ w.written.size) :
    w'.cut limit reason = w.cut limit reason := by
  have hsize := h.size_le
  obtain ⟨bytes, hbytes⟩ := h.written_eq
  have hroom : limit - w'.written.size = limit - w.written.size := by omega
  rw [cut, cut, hroom, hbytes, ByteArray.extract_append, Nat.zero_sub, Nat.sub_eq_zero_of_le hfull,
    ByteArray.extract_same, ByteArray.append_empty]

theorem write_of_room_eq_none (h : w.room = none) (text : String) :
    w.write text = (none, { w with written := w.written ++ text.toUTF8 }) := by
  rw [write, h]

theorem Grown.write (h : w.Grown start) (text : String) : (w.write text).2.Grown start := by
  refine h.trans ?_
  rw [write_of_room_eq_none h.room_eq]
  exact ⟨h.room_eq, text.toUTF8, rfl⟩

/-- A write to the cut fails if it does not fit, and leaves a cut in any case. -/
theorem write_cut (h : w.room = none) (text : String) :
    (w.cut limit reason).write text =
      (if text.toUTF8.size ≤ limit - w.written.size then none else some reason,
        (w.write text).2.cut limit reason) := by
  have hwritten : (w.written ++ text.toUTF8).extract 0 limit =
      w.written.extract 0 limit ++ text.toUTF8.extract 0 (limit - w.written.size) := by
    rw [ByteArray.extract_append, Nat.zero_sub]
  rw [write_of_room_eq_none h, write]
  simp only [cut, hwritten, ByteArray.size_append]
  split
  · rename_i hfits
    have hall : text.toUTF8.extract 0 (limit - w.written.size) = text.toUTF8 := by
      rw [← Nat.max_eq_left hfits, ByteArray.extract_zero_max_size]
    rw [hall, Nat.sub_sub]
  · rename_i hfits
    have hfull : limit - (w.written.size + text.toUTF8.size) = 0 := by omega
    rw [hfull]

/-- A writer without a limit, next to its cut. -/
structure IsCut (limit : Nat) (reason : String) (w v : Writer) : Prop where
  room_eq : w.room = none
  eq_cut : v = w.cut limit reason

theorem IsCut.write (h : IsCut limit reason w w') (text : String) :
    IsCut limit reason (w.write text).2 (w'.write text).2 := by
  refine ⟨?_, ?_⟩
  · rw [write_of_room_eq_none h.room_eq]
    exact h.room_eq
  · rw [h.eq_cut, write_cut h.room_eq]

theorem IsCut.fst_write (h : IsCut limit reason w w') (text : String) :
    (w'.write text).1 =
      if text.toUTF8.size ≤ limit - w.written.size then none else some reason := by
  rw [h.eq_cut, write_cut h.room_eq]

end

end Writer

namespace Console

variable (style : Frame → String)

theorem keeps_grown (start : ByteArray) :
    (ofStyle style).Keeps (ofStyle style) fun w _ => w.Grown start :=
  fun _ _ f h => h.write (style f)

theorem keeps_isCut (limit : Nat) (reason : String) :
    (ofStyle style).Keeps (ofStyle style) (Writer.IsCut limit reason) :=
  fun _ _ f h => h.write (style f)

end Console

namespace Command

variable {σ : Type} {c : Console σ} {s : Session σ}

theorem goesOn_attempt (label : String) (r : Request) :
    (attempt c s label r).1.goesOn = true := by
  unfold attempt
  split <;> rfl

/-- Only `quit` ends the shell. -/
theorem goesOn_execute {command : Command} (h : command ≠ .quit) :
    (command.execute c s).1.goesOn = true := by
  cases command with
  | quit => exact absurd rfl h
  | run | quantum | kill | input => exact goesOn_attempt _ _
  | load program =>
    simp only [execute]
    split
    · exact goesOn_attempt _ _
    · rfl
  | policy | diskWrite =>
    simp only [execute]
    split <;> rfl
  | _ => rfl

end Command

namespace Shell

/-! ## Shells on any console -/

section

variable {σ : Type} {c : Console σ} {s : Session σ} {failure : ShellFailure} {line : String}

/-- The session behind the prompt. -/
def prompted (c : Console σ) (s : Session σ) : Session σ := (write c s promptText).2

/-- The session behind the answer to a line. -/
def answered (c : Console σ) (s : Session σ) (line : String) : Session σ := (respond c s line).2

/-- The session once the commands of lines are carried out, without a prompt and with no answer
written. -/
def carriedOut (c : Console σ) (s : Session σ) (lines : List String) : Session σ :=
  lines.foldl (fun s line => ((Command.parse line).execute c s).2) s

/-- What a screen shows does not matter to the machine. -/
theorem machine_carriedOut {t : Session σ} (h : t.machine = s.machine) (lines : List String) :
    (carriedOut c t lines).machine = (carriedOut c s lines).machine := by
  have hkeeps : c.Keeps c fun _ _ => True := fun _ _ _ _ => trivial
  have halike : s.Alike (fun _ _ => True) t := ⟨h, trivial⟩
  induction lines generalizing s t with
  | nil => exact h
  | cons line rest ih =>
    have hnext := (halike.execute hkeeps (Command.parse line)).2
    exact ih hnext.machine_eq hnext

theorem respond_eq (c : Console σ) (s : Session σ) (line : String) :
    respond c s line =
      let next := (Command.parse line).execute c s
      let outcome := write c next.2 next.1.text
      (match outcome.1 with
        | some failure => .error failure
        | none => .ok next.1.goesOn, outcome.2) := by
  simp only [respond]
  split <;> rename_i hwrite <;> simp only [hwrite]

theorem machine_answered (c : Console σ) (s : Session σ) (line : String) :
    (answered c s line).machine = ((Command.parse line).execute c s).2.machine := by
  simp only [answered, respond_eq]
  rfl

theorem write_prompt {outcome : Option ShellFailure} (h : (write c s promptText).1 = outcome) :
    write c s promptText = (outcome, prompted c s) := Prod.ext h rfl

theorem run_of_prompt_lost (h : (write c s promptText).1 = some failure)
    (lines : List (Option String)) : run c s lines = (some failure, prompted c s) := by
  rw [run, write_prompt h]

theorem run_nil (h : (write c s promptText).1 = none) : run c s [] = (none, prompted c s) := by
  rw [run, write_prompt h]

theorem run_cons_none (h : (write c s promptText).1 = none) (rest : List (Option String)) :
    run c s (none :: rest) = (some notText, prompted c s) := by
  rw [run, write_prompt h]

theorem run_cons_some (h : (write c s promptText).1 = none) (line : String)
    (rest : List (Option String)) :
    run c s (some line :: rest) =
      match (respond c (prompted c s) line).1 with
      | .error failure => (some failure, answered c (prompted c s) line)
      | .ok false => (none, answered c (prompted c s) line)
      | .ok true => run c (answered c (prompted c s) line) rest := by
  rw [run, write_prompt h]
  simp only [answered]
  split <;> rename_i hrespond <;> simp only [hrespond]

end

/-! ## Shells on a writer and on its cut -/

section

variable (style : Frame → String) {limit : Nat} {reason : String} {s s' : Session Writer}

theorem fst_write (h : s.screen.room = none) (text : String) :
    (write (.ofStyle style) s text).1 = none := by
  change (s.screen.write text).1 = none
  rw [Writer.write_of_room_eq_none h]

theorem size_write (h : s.screen.room = none) (text : String) :
    (write (.ofStyle style) s text).2.screen.written.size =
      s.screen.written.size + text.toUTF8.size := by
  change (s.screen.write text).2.written.size = _
  rw [Writer.write_of_room_eq_none h, ByteArray.size_append]

theorem grown_write (h : s.screen.room = none) (text : String) :
    (write (.ofStyle style) s text).2.screen.Grown s.screen.written :=
  (Writer.Grown.of_room_eq_none h).write text

theorem grown_execute (h : s.screen.room = none) (command : Command) :
    (command.execute (.ofStyle style) s).2.screen.Grown s.screen.written := by
  have hstart : Session.Alike (fun w _ => w.Grown s.screen.written) s s :=
    ⟨rfl, .of_room_eq_none h⟩
  exact (hstart.execute (Console.keeps_grown style _) command).2.screen

theorem fst_respond (h : s.screen.room = none) (line : String) :
    (respond (.ofStyle style) s line).1 =
      .ok ((Command.parse line).execute (.ofStyle style) s).1.goesOn := by
  rw [respond_eq]
  simp only [fst_write style (grown_execute style h _).room_eq]

theorem grown_prompted (h : s.screen.room = none) :
    (prompted (.ofStyle style) s).screen.Grown s.screen.written := grown_write style h promptText

theorem grown_answered (h : s.screen.room = none) (line : String) :
    (answered (.ofStyle style) s line).screen.Grown s.screen.written := by
  have hnext := grown_execute style h (Command.parse line)
  simp only [answered, respond_eq]
  exact hnext.trans (grown_write style hnext.room_eq _)

/-- All that a shell writes stands behind its first prompt. -/
theorem grown_run (h : s.screen.room = none) (lines : List (Option String)) :
    (run (.ofStyle style) s lines).2.screen.Grown
      (prompted (.ofStyle style) s).screen.written := by
  induction lines generalizing s with
  | nil =>
    rw [run_nil (fst_write style h _)]
    exact .of_room_eq_none (grown_prompted style h).room_eq
  | cons line rest ih =>
    have hprompted := grown_prompted style h
    cases line with
    | none =>
      rw [run_cons_none (fst_write style h _)]
      exact .of_room_eq_none hprompted.room_eq
    | some line =>
      have hanswered := grown_answered style hprompted.room_eq line
      rw [run_cons_some (fst_write style h _)]
      split
      · exact hanswered
      · exact hanswered
      · have hnext := ih hanswered.room_eq
        exact hanswered.trans ((grown_prompted style hanswered.room_eq).trans hnext)

/-! ### The cut -/

theorem alike_write (h : s.Alike (Writer.IsCut limit reason) s') (text : String) :
    (write (.ofStyle style) s text).2.Alike (Writer.IsCut limit reason)
      (write (.ofStyle style) s' text).2 :=
  ⟨h.machine_eq, h.screen.write text⟩

theorem alike_prompted (h : s.Alike (Writer.IsCut limit reason) s') :
    (prompted (.ofStyle style) s).Alike (Writer.IsCut limit reason)
      (prompted (.ofStyle style) s') := alike_write style h promptText

/-- A prompt is written to the cut exactly if all of it lies in front of the cut. -/
theorem fst_write_prompt (h : s.Alike (Writer.IsCut limit reason) s') :
    (write (.ofStyle style) s' promptText).1 =
      if (prompted (.ofStyle style) s).screen.written.size ≤ limit then none else some reason := by
  have hsize : promptText.toUTF8.size = 2 := by decide
  have hwrite : (write (.ofStyle style) s' promptText).1 = _ := h.screen.fst_write promptText
  rw [hwrite, prompted, size_write style h.screen.room_eq, hsize]
  refine if_congr ?_ rfl rfl
  omega

theorem fst_write_prompt_of_fits (h : s.Alike (Writer.IsCut limit reason) s')
    (hfits : (prompted (.ofStyle style) s).screen.written.size ≤ limit) :
    (write (.ofStyle style) s' promptText).1 = none := by
  rw [fst_write_prompt style h, if_pos hfits]

theorem fst_write_prompt_of_lost (h : s.Alike (Writer.IsCut limit reason) s')
    (hlost : limit < (prompted (.ofStyle style) s).screen.written.size) :
    (write (.ofStyle style) s' promptText).1 = some reason := by
  rw [fst_write_prompt style h, if_neg (Nat.not_le.2 hlost)]

/-- A text is lost only if some of it lies behind the cut. -/
theorem fst_write_cut (h : s.Alike (Writer.IsCut limit reason) s') (text : String) :
    (write (.ofStyle style) s' text).1 = none ∨
      (write (.ofStyle style) s' text).1 = some reason ∧
        limit < (write (.ofStyle style) s text).2.screen.written.size := by
  have hwrite : (write (.ofStyle style) s' text).1 = _ := h.screen.fst_write text
  rw [hwrite, size_write style h.screen.room_eq]
  split
  · exact .inl rfl
  · exact .inr ⟨rfl, by omega⟩

theorem alike_answered (h : s.Alike (Writer.IsCut limit reason) s') (line : String) :
    (answered (.ofStyle style) s line).Alike (Writer.IsCut limit reason)
      (answered (.ofStyle style) s' line) := by
  obtain ⟨hanswer, hnext⟩ := h.execute (Console.keeps_isCut style limit reason) (Command.parse line)
  simp only [answered, respond_eq, hanswer]
  exact alike_write style hnext _

/-- A line is answered on the cut as it is on the writer, or the answer is lost. -/
theorem fst_respond_cut (h : s.Alike (Writer.IsCut limit reason) s') (line : String) :
    (respond (.ofStyle style) s' line).1 = (respond (.ofStyle style) s line).1 ∨
      (respond (.ofStyle style) s' line).1 = .error reason ∧
        limit < (answered (.ofStyle style) s line).screen.written.size := by
  obtain ⟨hanswer, hnext⟩ := h.execute (Console.keeps_isCut style limit reason) (Command.parse line)
  rw [fst_respond style h.screen.room_eq]
  simp only [answered, respond_eq, hanswer]
  rcases fst_write_cut style hnext
    ((Command.parse line).execute (.ofStyle style) s).1.text with hwrite | ⟨hwrite, hlost⟩
  · simp only [hwrite, true_or]
  · simp only [hwrite, true_and]
    exact .inr hlost

/-- The line that ends the shell is answered by nothing. -/
theorem size_answered_of_ok_false (h : s.screen.room = none) {line : String}
    (hends : (respond (.ofStyle style) s line).1 = .ok false) :
    (answered (.ofStyle style) s line).screen.written.size = s.screen.written.size := by
  rw [fst_respond style h, Except.ok.injEq] at hends
  have hquit : Command.parse line = .quit := by
    by_contra hne
    rw [Command.goesOn_execute hne] at hends
    exact absurd hends (by decide)
  simp only [answered, respond_eq, hquit, Command.execute, size_write style h]
  rfl

/-- A prompt behind the cut leaves the cut as it is. -/
theorem alike_prompted_of_lost (h : s.Alike (Writer.IsCut limit reason) s')
    (hlost : limit < s.screen.written.size) :
    (prompted (.ofStyle style) s).Alike (Writer.IsCut limit reason) s' := by
  have hgrown := grown_prompted style h.screen.room_eq
  refine ⟨h.machine_eq, hgrown.room_eq, ?_⟩
  rw [hgrown.cut_eq hlost.le, h.screen.eq_cut]

end

/-- How a shell ends on the cut of a writer, next to how it ends on the writer itself. -/
structure EndsAtCut (style : Frame → String) (limit : Nat) (reason : String) (s : Session Writer)
    (lines : List (Option String)) (short : Option ShellFailure × Session Writer) : Prop where
  screen_eq : short.2.screen = (run (.ofStyle style) s lines).2.screen.cut limit reason
  of_fits : (run (.ofStyle style) s lines).2.screen.written.size ≤ limit →
    short.1 = (run (.ofStyle style) s lines).1 ∧
      short.2.machine = (run (.ofStyle style) s lines).2.machine
  /-- The shell ends behind the first line that does not lie in front of the cut together with all
  that is written up to the next line. -/
  of_lost : limit < (run (.ofStyle style) s lines).2.screen.written.size →
    short.1 = some reason ∧ ∃ done : List String, done.map some <+: lines ∧
      limit < (run (.ofStyle style) s (done.map some)).2.screen.written.size ∧
      (∀ j < done.length,
        (run (.ofStyle style) s ((done.take j).map some)).2.screen.written.size ≤ limit) ∧
      short.2.machine = (carriedOut (.ofStyle style) s done).machine

namespace EndsAtCut

variable {style : Frame → String} {limit : Nat} {reason : String} {s s' : Session Writer}
  {lines : List (Option String)} {short : Option ShellFailure × Session Writer}

/-- The shell takes its course as if there were no cut. -/
theorem of_alike (hfits : (run (.ofStyle style) s lines).2.screen.written.size ≤ limit)
    (hend : short.1 = (run (.ofStyle style) s lines).1)
    (h : (run (.ofStyle style) s lines).2.Alike (Writer.IsCut limit reason) short.2) :
    EndsAtCut style limit reason s lines short where
  screen_eq := h.screen.eq_cut
  of_fits _ := ⟨hend, h.machine_eq⟩
  of_lost hlost := absurd hfits (Nat.not_le.2 hlost)

/-- Where the prompt is lost, the shell has carried out no line and writes nothing more. -/
theorem of_prompt_lost (hroom : s.screen.room = none)
    (hlost : limit < (prompted (.ofStyle style) s).screen.written.size)
    (hend : short.1 = some reason)
    (h : (prompted (.ofStyle style) s).Alike (Writer.IsCut limit reason) short.2) :
    EndsAtCut style limit reason s lines short where
  screen_eq := by rw [h.screen.eq_cut, (grown_run style hroom lines).cut_eq hlost.le]
  of_fits hfits :=
    absurd (hlost.trans_le (grown_run style hroom lines).size_le) (Nat.not_lt.2 hfits)
  of_lost _ := by
    refine ⟨hend, [], List.nil_prefix, ?_, fun j hj => absurd hj j.not_lt_zero, h.machine_eq⟩
    rw [List.map_nil, run_nil (fst_write style hroom _)]
    exact hlost

/-- Where the prompt fits and the shell goes on, it ends as it does from the next line on. -/
theorem of_goesOn (hroom : s.screen.room = none)
    (hfits : (prompted (.ofStyle style) s).screen.written.size ≤ limit) {line : String}
    (hgoes : (respond (.ofStyle style) (prompted (.ofStyle style) s) line).1 = .ok true)
    (h : EndsAtCut style limit reason (answered (.ofStyle style) (prompted (.ofStyle style) s) line)
      lines short) :
    EndsAtCut style limit reason s (some line :: lines) short := by
  have hfree := fst_write style hroom promptText
  have hprompted : (prompted (.ofStyle style) s).machine = s.machine := rfl
  have hrun (rest : List (Option String)) : run (.ofStyle style) s (some line :: rest) =
      run (.ofStyle style) (answered (.ofStyle style) (prompted (.ofStyle style) s) line) rest := by
    rw [run_cons_some hfree, hgoes]
  refine ⟨?_, ?_, ?_⟩ <;> rw [hrun]
  · exact h.screen_eq
  · exact h.of_fits
  · intro hlost
    obtain ⟨hend, done, hprefix, hdone, hbefore, hmachine⟩ := h.of_lost hlost
    refine ⟨hend, line :: done, ?_, ?_, ?_, ?_⟩
    · rw [List.map_cons, List.cons_prefix_cons]
      exact ⟨rfl, hprefix⟩
    · rw [List.map_cons, hrun]
      exact hdone
    · rintro (- | j) hj
      · rw [List.take_zero, List.map_nil, run_nil hfree]
        exact hfits
      · rw [List.take_succ_cons, List.map_cons, hrun]
        exact hbefore j (Nat.lt_of_succ_lt_succ hj)
    · calc short.2.machine
          = (carriedOut (.ofStyle style)
              (answered (.ofStyle style) (prompted (.ofStyle style) s) line) done).machine :=
            hmachine
        _ = (carriedOut (.ofStyle style) (prompted (.ofStyle style) s) (line :: done)).machine :=
            machine_carriedOut (machine_answered _ _ line) done
        _ = (carriedOut (.ofStyle style) s (line :: done)).machine :=
            machine_carriedOut hprompted (line :: done)

/-- Only a shell whose prompt fits is to be looked at any further. -/
theorem of_prompt (h : s.Alike (Writer.IsCut limit reason) s')
    (hgoes : (prompted (.ofStyle style) s).screen.written.size ≤ limit →
      EndsAtCut style limit reason s lines (run (.ofStyle style) s' lines)) :
    EndsAtCut style limit reason s lines (run (.ofStyle style) s' lines) := by
  rcases Nat.lt_or_ge limit (prompted (.ofStyle style) s).screen.written.size with hlost | hfits
  · rw [run_of_prompt_lost (fst_write_prompt_of_lost style h hlost)]
    exact of_prompt_lost h.screen.room_eq hlost rfl (alike_prompted style h)
  · exact hgoes hfits

/-- Where the shell ends by `quit`, it ends on the cut, too. -/
theorem of_ends (h : s.Alike (Writer.IsCut limit reason) s')
    (hfits : (prompted (.ofStyle style) s).screen.written.size ≤ limit) {line : String}
    (hends : (respond (.ofStyle style) (prompted (.ofStyle style) s) line).1 = .ok false) :
    EndsAtCut style limit reason s (some line :: lines)
      (run (.ofStyle style) s' (some line :: lines)) := by
  have hprompted := alike_prompted style h
  have hsize := size_answered_of_ok_false style hprompted.screen.room_eq hends
  have hwhole : run (.ofStyle style) s (some line :: lines) =
      (none, answered (.ofStyle style) (prompted (.ofStyle style) s) line) := by
    rw [run_cons_some (fst_write style h.screen.room_eq _), hends]
  -- an empty answer is never lost
  rcases fst_respond_cut style hprompted line with hcut | ⟨-, hlost⟩
  · rw [run_cons_some (fst_write_prompt_of_fits style h hfits), hcut, hends]
    refine of_alike ?_ ?_ ?_ <;> rw [hwhole]
    · exact hsize.trans_le hfits
    · exact alike_answered style hprompted line
  · exact absurd hfits (Nat.not_le.2 (hlost.trans_eq hsize))

end EndsAtCut

section

variable (style : Frame → String) {limit : Nat} {reason : String} {s s' : Session Writer}

/-- A shell on the cut of a writer ends at the cut, whatever the lines. -/
theorem endsAtCut_run (h : s.Alike (Writer.IsCut limit reason) s')
    (lines : List (Option String)) :
    EndsAtCut style limit reason s lines (run (.ofStyle style) s' lines) := by
  induction lines generalizing s s' with
  | nil =>
    refine .of_prompt h fun hfits => ?_
    have hwhole := run_nil (fst_write style h.screen.room_eq promptText)
    rw [run_nil (fst_write_prompt_of_fits style h hfits)]
    refine .of_alike ?_ ?_ ?_ <;> rw [hwhole]
    · exact hfits
    · exact alike_prompted style h
  | cons line rest ih =>
    refine .of_prompt h fun hfits => ?_
    have hfree := fst_write style h.screen.room_eq promptText
    have hprompt := fst_write_prompt_of_fits style h hfits
    have hprompted := alike_prompted style h
    cases line with
    | none =>
      rw [run_cons_none hprompt]
      refine .of_alike ?_ ?_ ?_ <;> rw [run_cons_none hfree]
      · exact hfits
      · exact hprompted
    | some line =>
      have hresponse := fst_respond style hprompted.screen.room_eq line
      cases hgoes : ((Command.parse line).execute (.ofStyle style)
        (prompted (.ofStyle style) s)).1.goesOn with
      | false =>
        rw [hgoes] at hresponse
        exact .of_ends h hfits hresponse
      | true =>
        rw [hgoes] at hresponse
        have hanswered := alike_answered style hprompted line
        have hroom := hanswered.screen.room_eq
        refine .of_goesOn h.screen.room_eq hfits hresponse ?_
        rw [run_cons_some hprompt]
        rcases fst_respond_cut style hprompted line with hcut | ⟨hcut, hlost⟩
        · rw [hcut, hresponse]
          exact ih hanswered
        -- with the answer the next prompt is lost, too
        · rw [hcut]
          exact .of_prompt_lost hroom (hlost.trans_le (grown_prompted style hroom).size_le) rfl
            (alike_prompted_of_lost style hanswered hlost)

/-- **A writer that fails.** Let a shell and the display of its machine share a writer that takes
`limit` bytes and then fails every write of something, in any style and for any lines. Then the
bytes that are written are the first ones of those that a writer without a limit takes. If all of
them fit, the shell ends as it does there, with the same machine. Otherwise the failure of the
writer is what it ends with, and its machine has carried out the shortest beginning of the lines
whose prompts, answers and frames do not fit, all of it and nothing more. -/
theorem run_on_limited_writer (s : Session Writer) (limit : Nat) (reason : String)
    (lines : List (Option String)) :
    let free := run (.ofStyle style) { s with screen := {} }
    let whole := free lines
    let transcript := whole.2.screen.written
    let short := run (.ofStyle style) { s with screen := { room := some limit, reason } } lines
    short.2.screen.written = transcript.extract 0 (min limit transcript.size) ∧
      (transcript.size ≤ limit → short.1 = whole.1 ∧ short.2.machine = whole.2.machine) ∧
      (limit < transcript.size → short.1 = some reason ∧
        ∃ done : List String, done.map some <+: lines ∧
          limit < (free (done.map some)).2.screen.written.size ∧
          (∀ j < done.length, (free ((done.take j).map some)).2.screen.written.size ≤ limit) ∧
          short.2.machine = (carriedOut (.ofStyle style) s done).machine) := by
  intro free whole transcript short
  have hstart : Session.Alike (Writer.IsCut limit reason) { s with screen := {} }
      { s with screen := { room := some limit, reason } } :=
    ⟨rfl, rfl, (Writer.cut_empty limit reason).symm⟩
  have hends := endsAtCut_run style hstart lines
  refine ⟨?_, hends.of_fits, fun hlost => ?_⟩
  · calc short.2.screen.written
        = transcript.extract 0 limit := congrArg Writer.written hends.screen_eq
      _ = (transcript.extract 0 transcript.size).extract 0 limit := by
          rw [ByteArray.extract_zero_size]
      _ = transcript.extract 0 (min limit transcript.size) := by
          rw [ByteArray.extract_extract, Nat.zero_add, Nat.zero_add]
  · obtain ⟨hend, done, hprefix, hdone, hbefore, hmachine⟩ := hends.of_lost hlost
    have hsame : ({ s with screen := {} } : Session Writer).machine = s.machine := rfl
    exact ⟨hend, done, hprefix, hdone, hbefore, hmachine.trans (machine_carriedOut hsame done)⟩

/-- The answer to the first line is lost and the second one never read, but the program is
loaded. -/
example :
    let short := run (.ofStyle Frame.quiet)
      { machine := Machine.small.value, screen := { room := some 3, reason := "full" } }
      [some "load 00", some "load 00"]
    short.1 = some "full" ∧ short.2.machine.processes.map (·.pid) = [0] := by decide +kernel

end

end Shell

end Timeshare
