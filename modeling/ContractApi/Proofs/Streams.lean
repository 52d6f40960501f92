import ContractApi.CommandLine.Run
import ContractApi.Proofs.Surrogates
/-!
# What the streams show

The standard output takes a text or refuses it as a whole. What prints a text that is refused fails; a notice that is
refused is lost, and its loss is reported to the standard error output.

- A world is `printed` on by texts that were taken, `complained` to by texts for the standard error output, and `told`
  lines, of which each is taken or reported. The last two go on where they ended (`told_told`).
- Notices from a level on are told one by one (`forM_tell_eq`), warnings on the way to the settings are complained of
  (`forM_tellEarly`).
-/

namespace ContractApi

theorem stateM_bind {σ α β : Type} (x : StateM σ α) (f : α → StateM σ β) (s : σ) :
    (x >>= f) s = f (x s).1 (x s).2 := rfl

/-! ## What is taken -/

namespace Capacity

variable {capacity : Capacity}

theorem takes_of_plain {t : Text} (h : t.Plain) : capacity.Takes t := by
  intro c hc
  rw [refuses, h c hc]
  rfl

theorem takes_append {t t' : Text} : capacity.Takes (t ++ t') ↔ capacity.Takes t ∧ capacity.Takes t' :=
  List.forall_mem_append

/-- A plain text is shown as it is. -/
theorem escape_of_plain {t : Text} (h : t.Plain) : t.flatMap capacity.escape = t := by
  have hc : ∀ c ∈ t, capacity.escape c = [c] := by
    intro c hc
    rw [escape, h c hc]
    rfl
  rw [List.flatMap_congr hc, List.flatMap_singleton']

/-- What the standard output shows of lines. -/
def shownOf (capacity : Capacity) (lines : List Text) : Text :=
  (lines.filter fun line => decide (capacity.Takes line)).flatten

/-- What the standard error output holds when each line that the standard output does not take was reported. -/
def reportedOn (capacity : Capacity) (errors : Text) (lines : List Text) : Text :=
  lines.foldl (fun errors line =>
    if capacity.Takes line then errors else errors ++ capacity.lossReport errors line) errors

theorem shownOf_append (lines lines' : List Text) :
    capacity.shownOf (lines ++ lines') = capacity.shownOf lines ++ capacity.shownOf lines' := by
  rw [shownOf, List.filter_append, List.flatten_append]
  rfl

theorem reportedOn_append (errors : Text) (lines lines' : List Text) :
    capacity.reportedOn errors (lines ++ lines') = capacity.reportedOn (capacity.reportedOn errors lines) lines' :=
  List.foldl_append

section Lines

variable {lines : List Text}

theorem shownOf_of_takes (h : ∀ line ∈ lines, capacity.Takes line) : capacity.shownOf lines = lines.flatten := by
  rw [shownOf, List.filter_eq_self.2 fun line hline => decide_eq_true (h line hline)]

theorem reportedOn_of_takes (h : ∀ line ∈ lines, capacity.Takes line) (errors : Text) :
    capacity.reportedOn errors lines = errors := by
  induction lines with
  | nil => rfl
  | cons line lines ih =>
    obtain ⟨hline, hlines⟩ := List.forall_mem_cons.1 h
    rw [reportedOn, List.foldl_cons, if_pos hline]
    exact ih hlines

/-- Nothing is shown exactly if every line is lost. -/
theorem shownOf_eq_nil (hne : ∀ line ∈ lines, line ≠ []) :
    capacity.shownOf lines = [] ↔ ∀ line ∈ lines, ¬capacity.Takes line := by
  rw [shownOf, List.flatten_eq_nil_iff]
  constructor
  · intro h line hline htakes
    exact hne line hline (h line (List.mem_filter.2 ⟨hline, decide_eq_true htakes⟩))
  · intro h line hline
    obtain ⟨hline, htakes⟩ := List.mem_filter.1 hline
    exact absurd (of_decide_eq_true htakes) (h line hline)

end Lines

end Capacity

/-! ## Worlds after something was shown -/

namespace World

/-- The world after a text was printed. -/
def printed (w : World) (text : Text) : World := { w with output := w.output ++ text }

/-- The world after a text was shown by the standard error output. -/
def complained (w : World) (text : Text) : World := { w with errors := w.errors ++ text }

/-- The world after each of the lines was printed, or else reported as lost. -/
def told (w : World) (lines : List Text) : World :=
  { w with output := w.output ++ w.capacity.shownOf lines, errors := w.capacity.reportedOn w.errors lines }

variable {w : World}

theorem printed_printed (w : World) (t t' : Text) : (w.printed t).printed t' = w.printed (t ++ t') := by
  rw [printed, printed, List.append_assoc]
  rfl

theorem printed_nil (w : World) : w.printed [] = w := by
  rw [printed, List.append_nil]

theorem complained_nil (w : World) : w.complained [] = w := by
  rw [complained, List.append_nil]

theorem complained_complained (w : World) (t t' : Text) : (w.complained t).complained t' = w.complained (t ++ t') := by
  rw [complained, complained, List.append_assoc]
  rfl

theorem told_nil (w : World) : w.told [] = w := w.printed_nil

theorem told_told (w : World) (ls ls' : List Text) : (w.told ls).told ls' = w.told (ls ++ ls') := by
  rw [told, told, told, Capacity.shownOf_append, Capacity.reportedOn_append, ← List.append_assoc]

/-- Lines that all are taken are printed. -/
theorem told_of_takes {lines : List Text} (h : ∀ line ∈ lines, w.capacity.Takes line) :
    w.told lines = w.printed lines.flatten := by
  rw [told, Capacity.shownOf_of_takes h, Capacity.reportedOn_of_takes h]
  rfl

theorem told_singleton (w : World) (line : Text) : w.told [line] =
    if w.capacity.Takes line then w.printed line
    else w.complained (w.capacity.lossReport w.errors line) := by
  by_cases h : w.capacity.Takes line
  · rw [told_of_takes (List.forall_mem_singleton.2 h), if_pos h, List.flatten_singleton]
  · simp [told, Capacity.shownOf, Capacity.reportedOn, h, complained]

theorem print_of_takes {t : Text} (h : w.capacity.Takes t) :
    (Surroundings.print t : StateM World (Except FileFault Unit)) w = (.ok (), w.printed t) := by
  simp only [Surroundings.print, Text.refusal?_eq_none.2 h]
  rfl

theorem print_of_refused {t : Text} (h : ¬w.capacity.Takes t) : ∃ start stop,
    (Surroundings.print t : StateM World (Except FileFault Unit)) w = (.error (.unencodable t start stop), w) := by
  cases hr : t.refusal? w.capacity.refuses with
  | none => exact absurd (Text.refusal?_eq_none.1 hr) h
  | some place =>
    refine ⟨place.1, place.2, ?_⟩
    simp only [Surroundings.print, hr]

end World

namespace Output.Writer

variable {w : World}

/-- A line is printed with its end if it is taken. -/
theorem printLine_of_takes {line : Text} (h : w.capacity.Takes line) :
    (printLine line : StateM World (Except FileFault Unit)) w = (.ok (), w.printed (line ++ "\n")) := by
  have hend : (w.printed line).capacity.Takes "\n" := Capacity.takes_of_plain (Text.plain_ofString _)
  rw [printLine, stateM_bind, World.print_of_takes h]
  change (Surroundings.print "\n" : StateM World (Except FileFault Unit)) (w.printed line) = _
  rw [World.print_of_takes hend, World.printed_printed]

section

variable {writer : Writer} {file : Text}
  (hheading : writer.needsHeader file = true → w.capacity.Takes (writer.heading file))

include hheading

theorem ensureHeader_of_takes : (writer.ensureHeader file : StateM World (Except FileFault Writer)) w =
    (.ok (writer.afterPrinting file), w.printed (if writer.needsHeader file then writer.header file else [])) := by
  rw [ensureHeader]
  by_cases h : writer.needsHeader file = true
  · rw [if_pos h, if_pos h, stateM_bind, printLine_of_takes (hheading h)]
    rfl
  · rw [if_neg h, if_neg h, World.printed_nil, afterPrinting, if_neg h]
    rfl

/-- What is printed is taken as a whole, the header apart. -/
theorem write_of_takes (hf : writer.toFiles = false) {line : Text} (hline : w.capacity.Takes line) :
    (writer.write line file : StateM World (Writer × Except FileFault Unit)) w =
      ((writer.afterPrinting file, .ok ()), w.printed (writer.printed line file)) := by
  have hline' : (w.printed (if writer.needsHeader file then writer.header file else [])).capacity.Takes line := hline
  rw [write, if_neg (by simp [hf]), stateM_bind, ensureHeader_of_takes hheading]
  dsimp only
  rw [stateM_bind, printLine_of_takes hline']
  dsimp only
  rw [World.printed_printed, printed, List.append_assoc]
  rfl

end

end Output.Writer

namespace CommandLine

/-! ## Notices -/

/-- The lines for notices from a level on. -/
def shown (least : Int) (time : Text) (notices : List Notice) : List Text :=
  (notices.filter fun n => least ≤ n.level.rank).map (noticeLine time)

theorem shown_append (least : Int) (time : Text) (ns ns' : List Notice) :
    shown least time (ns ++ ns') = shown least time ns ++ shown least time ns' := by
  rw [shown, List.filter_append, List.map_append]
  rfl

theorem told_shown (w : World) (least : Int) (time : Text) (ns ns' : List Notice) :
    (w.told (shown least time ns)).told (shown least time ns') = w.told (shown least time (ns ++ ns')) := by
  rw [World.told_told, shown_append]

theorem shown_eq_nil {least : Int} {time : Text} {notices : List Notice} (h : ∀ n ∈ notices, n.level.rank < least) :
    shown least time notices = [] := by
  rw [shown, List.filter_eq_nil_iff.2 fun n hn => by simpa using h n hn, List.map_nil]

theorem shown_eq_map {least : Int} {time : Text} {notices : List Notice} (h : ∀ n ∈ notices, least ≤ n.level.rank) :
    shown least time notices = notices.map (noticeLine time) := by
  rw [shown, List.filter_eq_self.2 fun n hn => decide_eq_true (h n hn)]

theorem noticeLine_ne_nil (time : Text) (n : Notice) : noticeLine time n ≠ [] := fun h => by cases h

/-- Around the wording of a notice there is nothing but ASCII, the time apart. -/
theorem takes_noticeLine {capacity : Capacity} {time : Text} (ht : time.Plain) {n : Notice} :
    capacity.Takes (noticeLine time n) ↔ capacity.Takes n.message := by
  have hplain : ∀ s : String, capacity.Takes s := fun s => Capacity.takes_of_plain (Text.plain_ofString s)
  have hlevel : capacity.Takes n.level.word := by cases n.level <;> exact hplain _
  have hsource : capacity.Takes n.source := by cases n <;> exact hplain _
  simp only [noticeLine, Notice.line, Capacity.takes_append, hplain, hlevel, hsource, Capacity.takes_of_plain ht,
    true_and, and_true]

theorem tell_of_lt {least : Int} {n : Notice} (h : n.level.rank < least) (w : World) :
    tell (m := StateM World) least n w = ((), w) := by
  rw [tell, if_neg (Int.not_le.2 h)]
  rfl

theorem tell_eq (least : Int) (n : Notice) (w : World) :
    tell (m := StateM World) least n w = ((), w.told (shown least w.time [n])) := by
  by_cases h : least ≤ n.level.rank
  · have hs : shown least w.time [n] = [noticeLine w.time n] := by simp [shown, h]
    have hclock : (Surroundings.clock : StateM World Text) w = (w.time, w) := rfl
    rw [tell, if_pos h, hs, World.told_singleton, stateM_bind, hclock]
    dsimp only
    by_cases ht : w.capacity.Takes (noticeLine w.time n)
    · rw [stateM_bind, if_pos ht, World.print_of_takes ht]
      rfl
    · obtain ⟨start, stop, hprint⟩ := World.print_of_refused ht
      rw [stateM_bind, if_neg ht, hprint]
      rfl
  · have hs : shown least w.time [n] = [] := by simp [shown, h]
    rw [tell_of_lt (Int.not_le.1 h), hs, World.told_nil]

/-- Notices are told line by line. -/
theorem forM_tell_eq (least : Int) : ∀ (notices : List Notice) (w : World),
    (notices.forM (tell least) : StateM World Unit) w = ((), w.told (shown least w.time notices))
  | [], w => by
    rw [shown, List.filter_nil, List.map_nil, World.told_nil]
    rfl
  | n :: notices, w => by
    have hshown : shown least w.time (n :: notices) = shown least w.time [n] ++ shown least w.time notices :=
      shown_append least w.time [n] notices
    change (tell least n >>= fun _ => notices.forM (tell least) : StateM World Unit) w = _
    rw [stateM_bind, tell_eq, forM_tell_eq least notices, World.told_told, hshown]
    rfl

/-- A notice as it is shown while the settings are being made. -/
def earlyLine (n : Notice) : Text := n.message ++ "\n"

/-- What is complained of while the settings are being made. -/
def earlyText (capacity : Capacity) (notices : List Notice) : Text :=
  (notices.filter fun n => Level.warning.rank ≤ n.level.rank).flatMap fun n => (earlyLine n).flatMap capacity.escape

theorem earlyText_eq_nil {capacity : Capacity} {notices : List Notice}
    (h : ∀ n ∈ notices, n.level.rank < Level.warning.rank) : earlyText capacity notices = [] := by
  rw [earlyText, List.filter_eq_nil_iff.2 fun n hn => by simpa using h n hn, List.flatMap_nil]

theorem forM_tellEarly (notices : List Notice) (w : World) :
    (notices.forM tellEarly : StateM World Unit) w = ((), w.complained (earlyText w.capacity notices)) := by
  induction notices generalizing w with
  | nil => exact congrArg (Prod.mk ()) w.complained_nil.symm
  | cons n notices ih =>
    change (tellEarly n >>= fun _ => notices.forM tellEarly : StateM World Unit) w = _
    rw [stateM_bind, tellEarly]
    by_cases h : Level.warning.rank ≤ n.level.rank
    · rw [if_pos h]
      change (notices.forM tellEarly : StateM World Unit)
        (w.complained ((earlyLine n).flatMap w.capacity.escape)) = _
      rw [ih, World.complained_complained]
      simp [earlyText, World.complained, h]
    · rw [if_neg h]
      change (notices.forM tellEarly : StateM World Unit) w = _
      rw [ih]
      simp [earlyText, h]

end CommandLine

end ContractApi
