import Mathlib.Tactic
import TapeMachine.CommandLine.Start
import TapeMachine.CommandLine.Step
import TapeMachine.Proofs.Machine.Reading
import TapeMachine.Proofs.Machine.Rerouting
import TapeMachine.Proofs.Stream.Lines

/-!
# The lines of the shell

A session of the shell is a sequence of turns. A turn asks for a line and takes it from standard
input; unless the line is blank it is run as a program, on a fresh machine that reads on right
behind the line. The next turn begins where this machine has stopped reading.

What a turn writes, and where it stops reading, is told here by the bytes that are left of standard
input, and by nothing else: not by what earlier lines have left of a tape, have written, or have
failed to write.

## Main definitions

* `TapeMachine.Shell.NextLine`, `TapeMachine.Shell.lineSource` — the next line, and its program
  text.
* `TapeMachine.Shell.Written` — what a turn writes.
* `TapeMachine.Shell.Turn`, `TapeMachine.Shell.Closes`, `TapeMachine.Shell.Stalls` — a turn that
  leads to the next one, a turn that ends the session, and one that does not end.
* `TapeMachine.Shell.Turns` — several turns.

## Main results

* `TapeMachine.Shell.Turn.unique` — what a turn writes and leaves depends on what it finds.
* `TapeMachine.Shell.Turn.leads`, `TapeMachine.Shell.Closes.leads`,
  `TapeMachine.Shell.Stalls.leads` — the command makes the turns.
* `TapeMachine.Shell.lines_are_isolated` — a session is the sequence of its turns.
-/

set_option autoImplicit false

namespace TapeMachine

open Progress Machine

/-! ## Lines without backspaces -/

namespace Text

/-- A line without backspaces is not changed by them. -/
lemma eraseBackspaces_of_notMem {line : String} (h : '\x08' ∉ line.toList) :
    eraseBackspaces line = line := by
  have hclusters : ∀ cluster ∈ clusters line.toList, cluster ≠ ['\x08'] := by
    rintro cluster hmem rfl
    refine h ?_
    rw [← flatten_clusters line.toList]
    exact List.mem_flatten_of_mem hmem List.mem_cons_self
  have hfold : ∀ (kept cs : List (List Char)), (∀ cluster ∈ cs, cluster ≠ ['\x08']) →
      cs.foldl (fun kept cluster =>
        if cluster = ['\x08'] then kept.drop 1 else cluster :: kept) kept = cs.reverse ++ kept := by
    intro kept cs
    induction cs generalizing kept with
    | nil => intro _; rfl
    | cons cluster cs ih =>
      intro hcs
      rw [List.foldl_cons, if_neg (hcs cluster List.mem_cons_self),
        ih _ fun c hc => hcs c (List.mem_cons_of_mem _ hc)]
      simp
  simp only [eraseBackspaces, hfold [] _ hclusters, List.append_nil, List.reverse_reverse,
    flatten_clusters, String.ofList_toList]

/-- The end of a line is taken off it, and nothing is put in. -/
lemma mem_toList_of_mem_chomp {line : String} {c : Char} (h : c ∈ (chomp line).toList) :
    c ∈ line.toList := by
  unfold chomp at h
  split at h
  · rename_i rest heq
    have hmem : c ∈ line.toList.reverse := by
      rw [heq]
      simpa using Or.inr (Or.inr (by simpa using h))
    simpa using hmem
  · rename_i rest heq
    have hmem : c ∈ line.toList.reverse := by
      rw [heq]
      simpa using Or.inr (by simpa using h)
    simpa using hmem
  · exact h

end Text

/-! ## Turns -/

/-- A record as it appears in the log, if it does. -/
def Surroundings.logged (surroundings : Surroundings) (record : LogRecord) : String :=
  if surroundings.filter.enables record then record.line surroundings.stamp else ""

namespace Shell

/-- The next line of the input, and what stands behind it. -/
def NextLine (input : List UInt8) (text : String) (behind : List UInt8) : Prop :=
  ∃ line, input = line ++ behind ∧ IsLine line behind ∧ line ≠ [] ∧ Text.decode? line = some text

/-- The program text of a line: it is edited by its backspaces, and then the blanks around it are
taken off. -/
def lineSource (text : String) : List UInt8 :=
  Text.encode (Text.strip (Text.eraseBackspaces (Text.chomp text)))

/-- What a turn writes: bytes to standard output, and to standard error records of the log, before
an error report if there is one. -/
structure Written where
  /-- The bytes for standard output. -/
  stdout : List UInt8
  /-- The records for the log. -/
  records : List LogRecord
  /-- The error report; it is empty if there is none. -/
  report : String := ""

/-- The text for standard error. -/
def Written.stderr (surroundings : Surroundings) (w : Written) : String :=
  String.join (w.records.map surroundings.logged) ++ w.report

/-- The bytes of the question that begins a turn. -/
def promptBytes : List UInt8 := Text.encode Console.shellPrompt

/-- The records of a line that has been loaded, behind that of the question. -/
def loadRecords (shell : Shell) (source : List UInt8) (program : Program) : List LogRecord :=
  .plainLines :: (if shell.fold then [.folded source program] else []) ++ [.loaded program]

/-- The machine for a program: it is fresh, its input are the bytes behind the line, and its writer
has accepted nothing yet. -/
def fresh (shell : Shell) (program : Program) (behind : List UInt8) : Machine :=
  .start program shell.config (.ofBytes behind) {}

/-- One turn of the shell, from a place in the input to the place where the next turn begins. -/
inductive Turn (shell : Shell) : List UInt8 → Written → List UInt8 → Prop
  /-- A blank line is passed over. -/
  | blank {input behind : List UInt8} {text : String} (hline : NextLine input text behind)
    (hblank : lineSource text = []) :
    Turn shell input { stdout := promptBytes, records := [.plainLines] } behind
  /-- A line that cannot be loaded is reported. -/
  | refused {input behind : List UInt8} {text : String} {error : BracketError}
    (hline : NextLine input text behind) (hsource : lineSource text ≠ [])
    (hload : Program.load (lineSource text) shell.fold = .error error) :
    Turn shell input
      { stdout := promptBytes, records := [.plainLines], report := s!"Error: {error.message}\n" }
      behind
  /-- A line that is executed to its end has its complete output written, and a line feed. -/
  | completed {input behind rest : List UInt8} {text : String} {program : Program}
    {steps : List Step} {m m' : Machine} {stats : Stats} (hline : NextLine input text behind)
    (hsource : lineSource text ≠ [])
    (hload : Program.load (lineSource text) shell.fold = .ok program)
    (hwalk : Walk (shell.fresh program behind) steps m) (hend : m.advance = .ended (.ok stats) m')
    (hrest : m'.input.reader = .ofBytes rest) :
    Turn shell input
      { stdout := promptBytes ++ emitted steps ++ [10]
        records := shell.loadRecords (lineSource text) program ++
          [.finished stats, .lineFinished stats] }
      rest
  /-- A line that fails in its course is reported. What its machine has handed over is written, and
  what is pending in it is not. -/
  | failed {input behind rest : List UInt8} {text : String} {program : Program}
    {steps : List Step} {m m' : Machine} {fault : Fault} (hline : NextLine input text behind)
    (hsource : lineSource text ≠ [])
    (hload : Program.load (lineSource text) shell.fold = .ok program)
    (hwalk : Walk (shell.fresh program behind) steps m)
    (hend : m.advance = .ended (.error fault) m')
    (hrest : m'.input.reader = .ofBytes rest) :
    Turn shell input
      { stdout := promptBytes ++ m'.output.writer.accepted.toList
        records := shell.loadRecords (lineSource text) program
        report := s!"Error: {fault.message}\n" }
      rest

/-- A turn that ends the session with an exit code. -/
inductive Closes : List UInt8 → Written → Nat → List UInt8 → Prop
  /-- The input has ended. -/
  | ended : Closes [] { stdout := promptBytes, records := [.plainLines] } 0 []
  /-- The line is not encoded in UTF-8. -/
  | undecodable {line behind : List UInt8} (hline : IsLine line behind) (hne : line ≠ [])
    (htext : Text.decode? line = none) :
    Closes (line ++ behind)
      { stdout := promptBytes
        records := [.plainLines]
        report := Report.block
          ⟨IoError.invalidUtf8.message, some IoError.invalidUtf8.message⟩ }
      1 behind

/-- A turn that does not end, because the program of the line does not. -/
def Stalls (shell : Shell) (input : List UInt8) : Prop :=
  ∃ text behind program, NextLine input text behind ∧ lineSource text ≠ [] ∧
    Program.load (lineSource text) shell.fold = .ok program ∧
    (shell.fresh program behind).Diverges

/-- Turns of the shell, one after another. -/
inductive Turns (shell : Shell) : List UInt8 → List Written → List UInt8 → Prop
  | nil (input : List UInt8) : Turns shell input [] input
  | cons {input input' rest : List UInt8} {w : Written} {written : List Written}
    (h : shell.Turn input w input') (more : Turns shell input' written rest) :
    Turns shell input (w :: written) rest

/-! ## Turns depend on the input -/

variable {shell : Shell} {input rest : List UInt8} {w : Written}

/-- There is one next line. -/
lemma NextLine.unique {text text' : String} {behind behind' : List UInt8}
    (h : NextLine input text behind) (h' : NextLine input text' behind') :
    text = text' ∧ behind = behind' := by
  obtain ⟨line, rfl, hline, -, htext⟩ := h
  obtain ⟨line', heq, hline', -, htext'⟩ := h'
  obtain ⟨rfl, rfl⟩ := hline.unique hline' heq
  rw [htext] at htext'
  exact ⟨Option.some.inj htext', rfl⟩

/-- A run has one walk and one end. -/
lemma run_unique {m₀ m m₁ m' m₁' : Machine} {steps steps' : List Step}
    {r r' : Except Fault Stats} (hwalk : Walk m₀ steps m) (hend : m.advance = .ended r m')
    (hwalk' : Walk m₀ steps' m₁) (hend' : m₁.advance = .ended r' m₁') :
    steps = steps' ∧ r = r' ∧ m' = m₁' := by
  have hle := hwalk'.length_le_of_ended hend' hwalk
  have hge := hwalk.length_le_of_ended hend hwalk'
  obtain ⟨rfl, rfl⟩ := hwalk.unique hwalk' (le_antisymm hle hge)
  rw [hend] at hend'
  cases hend'
  exact ⟨rfl, rfl, rfl⟩

/-- **What a turn writes and leaves depends on the input that it finds**, and on nothing else. -/
theorem Turn.unique {w' : Written} {rest' : List UInt8} (h : shell.Turn input w rest)
    (h' : shell.Turn input w' rest') : w = w' ∧ rest = rest' := by
  cases h with
  | blank hline hblank =>
    cases h' with
    | blank hline' =>
      obtain ⟨-, rfl⟩ := hline.unique hline'
      exact ⟨rfl, rfl⟩
    | refused hline' hsource | completed hline' hsource | failed hline' hsource =>
      obtain ⟨rfl, -⟩ := hline.unique hline'
      exact absurd hblank hsource
  | refused hline hsource hload =>
    cases h' with
    | blank hline' hblank =>
      obtain ⟨rfl, -⟩ := hline.unique hline'
      exact absurd hblank hsource
    | refused hline' _ hload' =>
      obtain ⟨rfl, rfl⟩ := hline.unique hline'
      rw [hload] at hload'
      cases hload'
      exact ⟨rfl, rfl⟩
    | completed hline' _ hload' | failed hline' _ hload' =>
      obtain ⟨rfl, -⟩ := hline.unique hline'
      rw [hload] at hload'
      cases hload'
  | completed hline hsource hload hwalk hend hrest | failed hline hsource hload hwalk hend hrest =>
    cases h' with
    | blank hline' hblank =>
      obtain ⟨rfl, -⟩ := hline.unique hline'
      exact absurd hblank hsource
    | refused hline' _ hload' =>
      obtain ⟨rfl, -⟩ := hline.unique hline'
      rw [hload] at hload'
      cases hload'
    | completed hline' _ hload' hwalk' hend' hrest' | failed hline' _ hload' hwalk' hend' hrest' =>
      obtain ⟨rfl, rfl⟩ := hline.unique hline'
      rw [hload] at hload'
      cases hload'
      obtain ⟨rfl, hresult, rfl⟩ := run_unique hwalk hend hwalk' hend'
      obtain rfl := Reader.ofBytes_injective (hrest.symm.trans hrest')
      cases hresult <;> exact ⟨rfl, rfl⟩

/-- A line takes something of the input. -/
lemma NextLine.length_lt {text : String} {behind : List UInt8} (h : NextLine input text behind) :
    behind.length < input.length := by
  obtain ⟨line, rfl, -, hne, -⟩ := h
  have hpos := List.length_pos_iff.mpr hne
  rw [List.length_append]
  omega

/-- The machine for a program stops reading somewhere behind the line. -/
lemma exists_rest {program : Program} {behind : List UInt8} {steps : List Step} {m m' : Machine}
    {r : Except Fault Stats} (hwalk : Walk (shell.fresh program behind) steps m)
    (hend : m.advance = .ended r m') : m'.Fed behind := by
  have hfed : (shell.fresh program behind).Fed behind := ⟨behind, List.suffix_refl behind, rfl⟩
  have hlast := (hfed.walk hwalk).advance
  rw [hend] at hlast
  exact hlast

/-- A turn takes something of the input. -/
lemma Turn.length_lt (h : shell.Turn input w rest) : rest.length < input.length := by
  cases h with
  | blank hline | refused hline => exact hline.length_lt
  | completed hline _ _ hwalk hend hrest | failed hline _ _ hwalk hend hrest =>
    obtain ⟨rest', hsuffix, hrest'⟩ := exists_rest hwalk hend
    obtain rfl := Reader.ofBytes_injective (hrest.symm.trans hrest')
    exact hsuffix.length_le.trans_lt hline.length_lt

/-- At every place of the input a turn leads on, or ends the session, or does not end. -/
theorem exists_turn (shell : Shell) (input : List UInt8) :
    (∃ w rest, shell.Turn input w rest) ∨ (∃ w code rest, Closes input w code rest) ∨
      shell.Stalls input := by
  obtain ⟨line, behind, rfl, hline⟩ := IsLine.exists_append input
  by_cases hne : line = []
  · subst hne
    -- an empty line is the end of the input
    obtain rfl : behind = [] := by
      rcases hline with ⟨front, -, hfront⟩ | ⟨-, hbehind⟩
      · simp at hfront
      · exact hbehind
    exact Or.inr (Or.inl ⟨_, _, _, .ended⟩)
  cases htext : Text.decode? line with
  | none => exact Or.inr (Or.inl ⟨_, _, _, .undecodable hline hne htext⟩)
  | some text =>
    have hnext : NextLine (line ++ behind) text behind := ⟨line, rfl, hline, hne, htext⟩
    by_cases hsource : lineSource text = []
    · exact Or.inl ⟨_, _, .blank hnext hsource⟩
    cases hload : Program.load (lineSource text) shell.fold with
    | error e => exact Or.inl ⟨_, _, .refused hnext hsource hload⟩
    | ok program =>
      by_cases hruns : ∃ r m', (shell.fresh program behind).RunsTo r m'
      · obtain ⟨r, m', hrun⟩ := hruns
        obtain ⟨steps, m, hwalk, hend⟩ := (runsTo_iff_walk rfl).mp hrun
        obtain ⟨rest, -, hrest⟩ := exists_rest hwalk hend
        cases r with
        | ok stats => exact Or.inl ⟨_, _, .completed hnext hsource hload hwalk hend hrest⟩
        | error fault => exact Or.inl ⟨_, _, .failed hnext hsource hload hwalk hend hrest⟩
      · refine Or.inr (Or.inr ⟨text, behind, program, hnext, hsource, hload, ?_⟩)
        exact diverges_iff_not_runsTo.mpr fun r m' hrun => hruns ⟨r, m', hrun⟩

end Shell

/-! ## What has been written -/

namespace Console

/-- The console after some turns. -/
def after (console : Console) (written : List Shell.Written) : Console :=
  console.report (String.join (written.map (·.stderr console.surroundings)))

variable (console : Console)

lemma report_empty : console.report "" = console := by
  simp [report]

lemma report_report (text text' : String) :
    (console.report text).report text' = console.report (text ++ text') := by
  simp only [report, String.append_assoc]

/-- A record that is logged is reported as it appears in the log. -/
lemma log_eq_report (record : LogRecord) :
    console.log record = console.report (console.surroundings.logged record) := by
  unfold log Surroundings.logged
  split
  · rfl
  · exact console.report_empty.symm

/-- The records of a turn are logged, and then an error is reported if there is one. -/
lemma after_singleton (w : Shell.Written) :
    console.after [w] =
      (console.report (String.join (w.records.map console.surroundings.logged))).report
        w.report := by
  simp [after, Shell.Written.stderr, report, String.append_assoc]

/-- Of a turn that only asks nothing but that is logged. -/
lemma after_prompt :
    console.after [{ stdout := Shell.promptBytes, records := [.plainLines] }] =
      console.log .plainLines := by
  simp [after_singleton, log_eq_report, report_empty]

lemma after_cons (w : Shell.Written) (written : List Shell.Written) :
    console.after (w :: written) = (console.after [w]).after written := by
  simp [after, report, String.append_assoc]

/-- The records of a loaded line are logged one after another. -/
lemma logLoaded_eq_report (shell : Shell) (source : List UInt8) (program : Program) :
    (console.log .plainLines).logLoaded source shell.fold program =
      console.report (String.join ((shell.loadRecords source program).map
        console.surroundings.logged)) := by
  unfold logLoaded Shell.loadRecords
  cases shell.fold <;> simp [log_eq_report, report, String.append_assoc]

end Console

/-! ## The steps of a turn -/

/-- A writer has gone on, by accepting bytes and without ever failing. -/
structure Writer.Continues (w w' : Writer) (bytes : List UInt8) : Prop where
  reliable : w'.Reliable
  accepted : w'.accepted.toList = w.accepted.toList ++ bytes

/-- A writer that never fails takes more bytes. -/
lemma Writer.Reliable.exists_continues {w : Writer} (h : w.Reliable) (bytes : List UInt8) :
    ∃ w', w.writeAll bytes = (.ok (), w') ∧ w.Continues w' bytes := by
  obtain ⟨w', hwrite, hw'⟩ := h.exists_writeAll bytes
  exact ⟨w', hwrite, hw', Writer.accepted_of_writeAll hwrite⟩

/-- What a writer takes later stands behind what it has taken before. -/
lemma Writer.Continues.trans {w w₁ w₂ : Writer} {bytes bytes' : List UInt8}
    (h : w.Continues w₁ bytes) (h' : w₁.Continues w₂ bytes') : w.Continues w₂ (bytes ++ bytes') :=
  ⟨h'.reliable, by rw [h'.accepted, h.accepted, List.append_assoc]⟩

namespace Job

/-- A job asks for a line of the shell. -/
def prompts (job : Job) : Bool :=
  match job.activity with
  | .prompting .. => true
  | _ => false

/-- A job that has ended ends with its exit code. -/
lemma step_exited (console : Console) (code : Nat) (stdin : Reader) (stdout : Writer) :
    step ⟨console, .exited code stdin stdout⟩ = .ended code ⟨console, .exited code stdin stdout⟩ :=
  rfl

/-- A job leads to another one without asking for a line in between. -/
abbrev LeadsTo (job job' : Job) : Prop := Leads step (fun job => job.prompts = false) job job'

end Job

namespace Console

variable {shell : Shell} {input behind : List UInt8} {text : String} {stdout : Writer}

/-- The shell asks for a line. -/
lemma stepPrompt_of_reliable (console : Console) (shell : Shell) (stdin : Reader)
    (h : stdout.Reliable) :
    ∃ stdout', stdout.Continues stdout' Shell.promptBytes ∧
      Job.step ⟨console, .prompting shell stdin stdout⟩ =
        .running ⟨console.log .plainLines, .reading shell stdin stdout'⟩ := by
  obtain ⟨w₁, hwrite, hw₁⟩ := h.exists_continues Shell.promptBytes
  obtain ⟨w₂, hflush, hw₂, haccepted⟩ := hw₁.reliable.exists_flush_accepted
  refine ⟨w₂, ⟨hw₂, haccepted ▸ hw₁.accepted⟩, ?_⟩
  rw [Shell.promptBytes] at hwrite
  simp only [Job.step, stepPrompt, hwrite, hflush]

/-- The shell takes the next line. -/
lemma stepLine_of_nextLine (console : Console) (shell : Shell) (stdout : Writer)
    (h : Shell.NextLine input text behind) :
    Job.step ⟨console, .reading shell (.ofBytes input) stdout⟩ =
      .running (console.beginLine shell text (.ofBytes behind) stdout) := by
  obtain ⟨line, rfl, hline, hne, htext⟩ := h
  have hempty : line.isEmpty = false := by simpa using hne
  simp only [Job.step, stepLine, Reader.nextLine_ofBytes hline, hempty, htext, Bool.false_eq_true,
    if_false]

/-- The shell asks for a line, takes the next one and begins with it. -/
lemma exists_leadsTo_beginLine (console : Console) (shell : Shell) (hstdout : stdout.Reliable)
    (hline : Shell.NextLine input text behind) :
    ∃ stdout', stdout.Continues stdout' Shell.promptBytes ∧
      Job.LeadsTo ⟨console, .prompting shell (.ofBytes input) stdout⟩
        ((console.log .plainLines).beginLine shell text (.ofBytes behind) stdout') := by
  obtain ⟨stdout', hstdout', hprompt⟩ :=
    console.stepPrompt_of_reliable shell (.ofBytes input) hstdout
  have hread := (console.log .plainLines).stepLine_of_nextLine shell stdout' hline
  exact ⟨stdout', hstdout', .more hprompt rfl (.last hread)⟩

/-- The shell passes a blank line over. -/
lemma beginLine_of_blank (console : Console) (h : Shell.lineSource text = []) (stdin : Reader) :
    console.beginLine shell text stdin stdout = ⟨console, .prompting shell stdin stdout⟩ := by
  unfold Shell.lineSource at h
  simp only [beginLine, h, List.isEmpty_nil, if_true]

/-- The shell reports a line that cannot be loaded. -/
lemma beginLine_of_refused (console : Console) {error : BracketError}
    (hsource : Shell.lineSource text ≠ [])
    (hload : Program.load (Shell.lineSource text) shell.fold = .error error) (stdin : Reader) :
    console.beginLine shell text stdin stdout =
      ⟨console.report s!"Error: {error.message}\n", .prompting shell stdin stdout⟩ := by
  have hempty : (Shell.lineSource text).isEmpty = false := by simpa using hsource
  unfold Shell.lineSource at hempty hload
  simp only [beginLine, hempty, Shell.machine, hload, Bool.false_eq_true, if_false]

/-- The shell begins to run a line that is not blank and can be loaded. -/
lemma beginLine_of_load (console : Console) {program : Program}
    (hsource : Shell.lineSource text ≠ [])
    (hload : Program.load (Shell.lineSource text) shell.fold = .ok program) (stdin : Reader) :
    console.beginLine shell text stdin stdout =
      ⟨console.logLoaded (Shell.lineSource text) shell.fold program,
        .evaluating shell (.start program shell.config stdin stdout)⟩ := by
  have hempty : (Shell.lineSource text).isEmpty = false := by simpa using hsource
  unfold Shell.lineSource at hempty hload
  simp only [beginLine, hempty, Shell.machine, hload, Bool.false_eq_true, if_false]
  rfl

/-- How the shell goes on behind the run of a line. -/
def afterLine (console : Console) (shell : Shell) : Except Fault Stats → Machine → Job
  | .error fault, m =>
    ⟨console.report s!"Error: {fault.message}\n", .prompting shell m.input.reader m.output.writer⟩
  | .ok stats, m =>
    let console := (console.log (.finished stats)).log (.lineFinished stats)
    match m.output.writer.writeAll [10] with
    | (.error cause, stdout) => console.fail { message := cause.message } m.input.reader stdout
    | (.ok (), stdout) => ⟨console, .prompting shell m.input.reader stdout⟩

/-- The shell makes a step of the run of a line. Nothing is logged where the input does not fail. -/
lemma stepLineRun_of_fed (console : Console) (shell : Shell) {m : Machine} {bytes : List UInt8}
    (h : m.Fed bytes) :
    Job.step ⟨console, .evaluating shell m⟩ =
      .running
        (match m.advance with
        | .running m' => ⟨console, .evaluating shell m'⟩
        | .ended r m' => console.afterLine shell r m') := by
  have hlog : console.logUnread m = console := by
    obtain ⟨rest, -, hreader⟩ := h
    unfold logUnread
    rw [hreader, Reader.next_ofBytes]
    split
    · cases rest <;> rfl
    · rfl
  simp only [Job.step, stepLineRun, hlog]
  rcases m.advance with m' | ⟨_ | stats, m'⟩
  · rfl
  · rfl
  · rfl

/-! ## The run of a line -/

/-- **The run of a line** leads to where the run of a fresh machine ends, behind the bytes that
standard output has accepted before.

**Proof sketch.** Induction on the walk of the fresh machine. Each of its steps is made by the
machine of the shell as well. -/
theorem evaluating_leadsTo (console : Console) (shell : Shell) {before bytes : List UInt8}
    {m₀ m m₁ m' : Machine} {steps : List Step} {r : Except Fault Stats} (hwalk : Walk m₀ steps m₁)
    (hend : m₁.advance = .ended r m') (h : Rerouted before m₀ m) (hfed : m₀.Fed bytes) :
    ∃ m'', Rerouted before m' m'' ∧
      Job.LeadsTo ⟨console, .evaluating shell m⟩ (console.afterLine shell r m'') := by
  have hstep : ∀ {m₀ m : Machine}, Rerouted before m₀ m → m₀.Fed bytes →
      Job.step ⟨console, .evaluating shell m⟩ =
        .running
          (match m.advance with
          | .running m' => ⟨console, .evaluating shell m'⟩
          | .ended r m' => console.afterLine shell r m') := by
    rintro m₀ m h ⟨rest, hsuffix, hreader⟩
    exact console.stepLineRun_of_fed shell ⟨rest, hsuffix, by rw [h.same.input, hreader]⟩
  induction hwalk generalizing m with
  | nil m₁ =>
    have hadvance := h.advance
    rw [hend] at hadvance
    have hjob := hstep h hfed
    cases ha : m.advance with
    | running m'' =>
      rw [ha] at hadvance
      exact hadvance.elim
    | ended r' m'' =>
      rw [ha] at hadvance hjob
      obtain ⟨rfl, hsame⟩ := hadvance
      exact ⟨m'', hsame, .last hjob⟩
  | @cons m₀ m₂ m₁ report steps hnext _ ih =>
    have hrun : m₀.advance = .running m₂ :=
      (advance_eq_running_iff_next (next_eq_ok_iff.mp hnext).1).mpr ⟨report, hnext⟩
    have hadvance := h.advance
    have hfed₂ := hfed.advance
    rw [hrun] at hadvance hfed₂
    have hjob := hstep h hfed
    cases ha : m.advance with
    | ended r' m'' =>
      rw [ha] at hadvance
      exact hadvance.elim
    | running m'' =>
      rw [ha] at hadvance hjob
      obtain ⟨m₃, hsame, hleads⟩ := ih hend hadvance hfed₂
      exact ⟨m₃, hsame, .more hjob rfl hleads⟩

end Console

/-- A job is busy with a line whose run does not end. -/
def Job.Busy (job : Job) : Prop :=
  ∃ console shell before bytes m₀ m, job = ⟨console, .evaluating shell m⟩ ∧ m₀.finished = false ∧
    m₀.Diverges ∧ Rerouted before m₀ m ∧ m₀.Fed bytes

namespace Job

variable {job : Job}

/-- A run that does not end makes another step, and does not end from there. -/
lemma exists_advance_of_diverges {m : Machine} (hf : m.finished = false) (h : m.Diverges) :
    ∃ m', m.advance = .running m' ∧ m'.finished = false ∧ m'.Diverges := by
  rw [diverges_iff_not_runsTo] at h
  simp only [runsTo_iff_halts hf] at h
  cases hadvance : m.advance with
  | ended r m' => exact absurd (.ended hadvance) (h r m')
  | running m' =>
    obtain ⟨report, hnext⟩ := (advance_eq_running_iff_next hf).mp hadvance
    have hf' : m'.finished = false := (next_frame hnext).2.1.trans hf
    refine ⟨m', rfl, hf', diverges_iff_not_runsTo.mpr fun r t hrun => ?_⟩
    exact h r t (.running hadvance ((runsTo_iff_halts hf').mp hrun))

/-- A job that is busy stays so. -/
lemma Busy.exists_step (h : job.Busy) : ∃ job', job.step = .running job' ∧ job'.Busy := by
  obtain ⟨console, shell, before, bytes, m₀, m, rfl, hf, hdiverges, hsame, hfed⟩ := h
  obtain ⟨m₁, hrun, hf₁, hdiverges₁⟩ := exists_advance_of_diverges hf hdiverges
  have hadvance := hsame.advance
  have hfed₁ := hfed.advance
  rw [hrun] at hadvance hfed₁
  obtain ⟨rest, hsuffix, hreader⟩ := hfed
  have hjob := console.stepLineRun_of_fed (m := m) shell
    ⟨rest, hsuffix, by rw [hsame.same.input, hreader]⟩
  cases ha : m.advance with
  | ended r m' =>
    rw [ha] at hadvance
    exact hadvance.elim
  | running m' =>
    rw [ha] at hadvance hjob
    exact ⟨_, hjob, console, shell, before, bytes, m₁, m', rfl, hf₁, hdiverges₁, hadvance, hfed₁⟩

/-- A job that is busy asks for no line. -/
lemma Busy.prompts (h : job.Busy) : job.prompts = false := by
  obtain ⟨console, shell, before, bytes, m₀, m, rfl, -⟩ := h
  rfl

end Job

/-! ## Turns of the command -/

namespace Shell

variable {shell : Shell} {input behind rest : List UInt8} {w : Written} {text : String}
  {stdout : Writer}

/-- The shell asks for a line that it can load, and runs it. What the fresh machine hands over
stands behind the question. -/
lemma exists_leadsTo_afterLine (console : Console) {program : Program} {steps : List Step}
    {m m' : Machine} {r : Except Fault Stats} (h : stdout.Reliable)
    (hline : NextLine input text behind) (hsource : lineSource text ≠ [])
    (hload : Program.load (lineSource text) shell.fold = .ok program)
    (hwalk : Walk (shell.fresh program behind) steps m) (hend : m.advance = .ended r m') :
    ∃ m'', stdout.Continues m''.output.writer
        (promptBytes ++ m'.output.writer.accepted.toList) ∧
      m''.input = m'.input ∧
      Job.LeadsTo ⟨console, .prompting shell (.ofBytes input) stdout⟩
        ((console.report (String.join ((shell.loadRecords (lineSource text) program).map
          console.surroundings.logged))).afterLine shell r m'') := by
  obtain ⟨w, hw, hleads⟩ := console.exists_leadsTo_beginLine shell h hline
  rw [Console.beginLine_of_load _ hsource hload, Console.logLoaded_eq_report] at hleads
  obtain ⟨m'', hsame, hrun⟩ := Console.evaluating_leadsTo
    (console.report (String.join ((shell.loadRecords (lineSource text) program).map
      console.surroundings.logged)))
    shell hwalk hend (rerouted_start program shell.config (.ofBytes behind) hw.reliable)
    ⟨behind, List.suffix_refl behind, rfl⟩
  exact ⟨m'', hw.trans ⟨hsame.output.reliable', hsame.output.accepted⟩, hsame.same.input,
    hleads.trans rfl hrun⟩

/-- A run that succeeds has written all of its output. -/
lemma accepted_of_completed {program : Program} {steps : List Step} {m m' : Machine} {stats : Stats}
    (hwalk : Walk (shell.fresh program behind) steps m) (hend : m.advance = .ended (.ok stats) m') :
    m'.output.writer.accepted.toList = emitted steps := by
  rcases advance_eq_ended_iff.mp hend with ⟨-, hfinish⟩ | ⟨i, fault, -, -, hfault⟩
  · have hpushed : m.output.pushed = emitted steps := hwalk.pushed
    unfold finish at hfinish
    split at hfinish
    · cases hfinish
    · rename_i sink hflush
      cases hfinish
      obtain ⟨hkept, hpending, -⟩ := OutputSink.pushed_of_flush hflush
      rw [← hpushed, ← hkept, OutputSink.pushed, hpending]
      simp
  · cases hfault

/-- **A turn is made by the command.** From one question to the next it writes what the turn
writes. -/
theorem Turn.leads (h : shell.Turn input w rest) (console : Console) (hstdout : stdout.Reliable) :
    ∃ stdout', stdout.Continues stdout' w.stdout ∧
      Job.LeadsTo ⟨console, .prompting shell (.ofBytes input) stdout⟩
        ⟨console.after [w], .prompting shell (.ofBytes rest) stdout'⟩ := by
  cases h with
  | blank hline hblank =>
    obtain ⟨stdout', hstdout', hleads⟩ := console.exists_leadsTo_beginLine shell hstdout hline
    rw [Console.beginLine_of_blank _ hblank] at hleads
    rw [Console.after_prompt]
    exact ⟨stdout', hstdout', hleads⟩
  | refused hline hsource hload =>
    obtain ⟨stdout', hstdout', hleads⟩ := console.exists_leadsTo_beginLine shell hstdout hline
    rw [Console.beginLine_of_refused _ hsource hload, Console.log_eq_report] at hleads
    refine ⟨stdout', hstdout', ?_⟩
    rw [Console.after_singleton]
    simpa using hleads
  | completed hline hsource hload hwalk hend hrest =>
    obtain ⟨m'', hwritten, hinput, hleads⟩ :=
      exists_leadsTo_afterLine console hstdout hline hsource hload hwalk hend
    obtain ⟨stdout', hwrite, hstdout'⟩ := hwritten.reliable.exists_continues [10]
    rw [accepted_of_completed hwalk hend] at hwritten
    refine ⟨stdout', hwritten.trans hstdout', ?_⟩
    simp only [Console.afterLine, hwrite, hinput, hrest, Console.log_eq_report,
      Console.report_report] at hleads
    rw [Console.after_singleton]
    simpa [Console.report, String.append_assoc] using hleads
  | failed hline hsource hload hwalk hend hrest =>
    obtain ⟨m'', hwritten, hinput, hleads⟩ :=
      exists_leadsTo_afterLine console hstdout hline hsource hload hwalk hend
    refine ⟨m''.output.writer, hwritten, ?_⟩
    rw [Console.after_singleton, ← hrest, ← hinput]
    exact hleads

/-- **A turn that ends the session** ends the command. -/
theorem Closes.leads {code : Nat} (h : Closes input w code rest) (shell : Shell) (console : Console)
    (hstdout : stdout.Reliable) :
    ∃ stdout', stdout.Continues stdout' w.stdout ∧
      Job.LeadsTo ⟨console, .prompting shell (.ofBytes input) stdout⟩
        ⟨console.after [w], .exited code (.ofBytes rest) stdout'⟩ := by
  obtain ⟨stdout', hstdout', hprompt⟩ :=
    console.stepPrompt_of_reliable shell (.ofBytes input) hstdout
  cases h with
  | ended =>
    have hline : IsLine [] [] := Or.inr ⟨List.not_mem_nil, rfl⟩
    have hread : Job.step ⟨console.log .plainLines, .reading shell (.ofBytes []) stdout'⟩ =
        .running ((console.log .plainLines).exit 0 (.ofBytes []) stdout') := by
      have hnext := Reader.nextLine_ofBytes hline
      rw [List.append_nil] at hnext
      simp only [Job.step, Console.stepLine, hnext]
      rfl
    rw [Console.after_prompt]
    exact ⟨stdout', hstdout', .more hprompt rfl (.last hread)⟩
  | undecodable hline hne htext =>
    refine ⟨stdout', hstdout', .more hprompt rfl (.last ?_)⟩
    have hempty := List.isEmpty_eq_false_iff.mpr hne
    simp only [Job.step, Console.stepLine, Reader.nextLine_ofBytes hline, hempty, htext,
      Bool.false_eq_true, if_false, Console.failShell, Console.fail, Console.log_eq_report,
      Console.after_singleton]
    simp [Console.exit]

/-- **A turn that does not end** keeps the command busy for ever. -/
theorem Stalls.leads (h : shell.Stalls input) (console : Console) (hstdout : stdout.Reliable) :
    ∃ job : Job, job.Busy ∧
      Job.LeadsTo ⟨console, .prompting shell (.ofBytes input) stdout⟩ job := by
  obtain ⟨text, behind, program, hline, hsource, hload, hdiverges⟩ := h
  obtain ⟨w, hw, hleads⟩ := console.exists_leadsTo_beginLine shell hstdout hline
  rw [Console.beginLine_of_load _ hsource hload] at hleads
  exact ⟨_, ⟨_, shell, _, behind, _, _, rfl, rfl, hdiverges,
    rerouted_start program shell.config (.ofBytes behind) hw.reliable,
    behind, List.suffix_refl behind, rfl⟩, hleads⟩

/-! ## Whole sessions -/

variable {written : List Written}

/-- The command makes turns one after another. -/
theorem Turns.reaches (h : shell.Turns input written rest) (console : Console)
    (hstdout : stdout.Reliable) :
    ∃ stdout', stdout.Continues stdout' (written.flatMap Written.stdout) ∧
      Reaches Job.step ⟨console, .prompting shell (.ofBytes input) stdout⟩
        ⟨console.after written, .prompting shell (.ofBytes rest) stdout'⟩ := by
  induction h generalizing console stdout with
  | nil input =>
    have hafter : console.after [] = console := console.report_empty
    rw [hafter]
    exact ⟨stdout, ⟨hstdout, (List.append_nil _).symm⟩, .refl _⟩
  | cons h _ ih =>
    obtain ⟨stdout₁, hstdout₁, hleads⟩ := h.leads console hstdout
    obtain ⟨stdout', hstdout', hreach⟩ := ih (console.after [_]) hstdout₁.reliable
    rw [← Console.after_cons] at hreach
    exact ⟨stdout', hstdout₁.trans hstdout', hleads.reaches.trans hreach⟩

/-- **Where the command asks for a line, it has made turns.**

**Proof sketch.** Induction on the input. The first turn leads to a place behind at least a line of
it, or ends the session, or does not end; and the command asks for no line before that. -/
theorem exists_turns_of_reaches (shell : Shell) (input : List UInt8) (console : Console)
    (hstdout : stdout.Reliable) {job : Job}
    (hreach : Reaches Job.step ⟨console, .prompting shell (.ofBytes input) stdout⟩ job)
    (hjob : job.prompts = true) :
    ∃ written rest stdout', Turns shell input written rest ∧
      stdout.Continues stdout' (written.flatMap Written.stdout) ∧
      job = ⟨console.after written, .prompting shell (.ofBytes rest) stdout'⟩ := by
  induction hlength : input.length using Nat.strong_induction_on
    generalizing input console stdout with
  | _ n ih =>
    have hhere : job = ⟨console, .prompting shell (.ofBytes input) stdout⟩ →
        ∃ written rest stdout', Turns shell input written rest ∧
          stdout.Continues stdout' (written.flatMap Written.stdout) ∧
          job = ⟨console.after written, .prompting shell (.ofBytes rest) stdout'⟩ := fun heq =>
      ⟨[], input, stdout, .nil input, ⟨hstdout, (List.append_nil _).symm⟩,
        heq.trans (by rw [show console.after [] = console from console.report_empty])⟩
    rcases exists_turn shell input with ⟨w, rest₁, hturn⟩ | ⟨w, code, rest₁, hcloses⟩ | hstalls
    · obtain ⟨stdout₁, hstdout₁, hleads⟩ := hturn.leads console hstdout
      rcases hleads.cases_of_reaches hreach with heq | hquiet | hrest
      · exact hhere heq
      · simp [hjob] at hquiet
      · obtain ⟨written, rest, stdout', hturns, hstdout', rfl⟩ :=
          ih _ (hlength ▸ hturn.length_lt) rest₁ _ hstdout₁.reliable hrest rfl
        exact ⟨w :: written, rest, stdout', .cons hturn hturns, hstdout₁.trans hstdout',
          by rw [console.after_cons w written]⟩
    · obtain ⟨stdout₁, -, hleads⟩ := hcloses.leads shell console hstdout
      rcases hleads.cases_of_reaches hreach with heq | hquiet | hrest
      · exact hhere heq
      · simp [hjob] at hquiet
      · obtain rfl := (reaches_iff_of_ended (Job.step_exited _ _ _ _)).mp hrest
        cases hjob
    · obtain ⟨job₁, hbusy, hleads⟩ := hstalls.leads console hstdout
      rcases hleads.cases_of_reaches hreach with heq | hquiet | hrest
      · exact hhere heq
      · simp [hjob] at hquiet
      · have hbusy' :=
          (forall_reaches_of_running (fun _ => Job.Busy.exists_step) hbusy).1 job hrest
        simp [hbusy'.prompts] at hjob

/-- **Where the command ends, it has made turns** and a last one. -/
theorem exists_turns_of_halts (shell : Shell) (input : List UInt8) (console : Console)
    (hstdout : stdout.Reliable) {code : Nat} {job : Job}
    (hhalts : Halts Job.step ⟨console, .prompting shell (.ofBytes input) stdout⟩ code job) :
    ∃ written mid last rest stdout', Turns shell input written mid ∧ Closes mid last code rest ∧
      stdout.Continues stdout' ((written ++ [last]).flatMap Written.stdout) ∧
      job = ⟨console.after (written ++ [last]), .exited code (.ofBytes rest) stdout'⟩ := by
  induction hlength : input.length using Nat.strong_induction_on
    generalizing input console stdout with
  | _ n ih =>
    rcases exists_turn shell input with ⟨w, rest₁, hturn⟩ | ⟨w, code₁, rest₁, hcloses⟩ | hstalls
    · obtain ⟨stdout₁, hstdout₁, hleads⟩ := hturn.leads console hstdout
      obtain ⟨written, mid, last, rest, stdout', hturns, hcloses, hstdout', rfl⟩ :=
        ih _ (hlength ▸ hturn.length_lt) rest₁ _ hstdout₁.reliable (hleads.halts_iff.mp hhalts) rfl
      exact ⟨w :: written, mid, last, rest, stdout', .cons hturn hturns, hcloses,
        hstdout₁.trans hstdout', by rw [List.cons_append, console.after_cons w (written ++ [last])]⟩
    · obtain ⟨stdout₁, hstdout₁, hleads⟩ := hcloses.leads shell console hstdout
      obtain ⟨rfl, rfl⟩ :=
        (halts_iff_of_ended (Job.step_exited _ _ _ _)).mp (hleads.halts_iff.mp hhalts)
      refine ⟨[], input, w, rest₁, stdout₁, .nil input, hcloses, ?_, rfl⟩
      simpa using hstdout₁
    · obtain ⟨job₁, hbusy, hleads⟩ := hstalls.leads console hstdout
      have hnever := (forall_reaches_of_running (fun _ => Job.Busy.exists_step) hbusy).2 code job
      exact absurd (hleads.halts_iff.mp hhalts) hnever

/-- The turns come to an end, or to a line whose run does not end. -/
theorem exists_last (shell : Shell) (input : List UInt8) :
    ∃ written mid, Turns shell input written mid ∧
      ((∃ last code rest, Closes mid last code rest) ∨ shell.Stalls mid) := by
  induction hlength : input.length using Nat.strong_induction_on generalizing input with
  | _ n ih =>
    rcases exists_turn shell input with ⟨w, rest, hturn⟩ | hlast
    · obtain ⟨written, mid, hturns, hlast⟩ := ih _ (hlength ▸ hturn.length_lt) rest rfl
      exact ⟨w :: written, mid, .cons hturn hturns, hlast⟩
    · exact ⟨[], input, .nil input, hlast⟩

end Shell

end TapeMachine
