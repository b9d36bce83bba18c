import Mathlib.Tactic
import TapeMachine.Proofs.Debug.Session
import TapeMachine.Proofs.Text.Stripping

/-!
# Suspensions take their lines

While a machine is suspended its operator is asked, line by line. Lines that ask for the tape are
answered and lead to another question. The first other line tells how to go on, and so does the end
of the input. So a suspension takes just the lines that settle it, and leaves the others to the next
one: over a series of suspensions every line is taken once.

## Main definitions

* `TapeMachine.printWords`, `TapeMachine.Means` — the words of an operator.
* `TapeMachine.AsksForTape`, `TapeMachine.Settles` — what a line asks for.
* `TapeMachine.Exchange` — the lines that a suspension takes, and how it ends with them.
* `TapeMachine.Exchange.Takes` — an exchange takes its lines from a list of lines.
* `TapeMachine.SameWords` — lines with the same word, if there is one on them.
* `TapeMachine.Debugger.Suspension` — all that a suspension does.
* `TapeMachine.Debugger.suspendAll`, `TapeMachine.Debugger.Suspensions` — a series of suspensions.

## Main results

* `TapeMachine.Exchange.Takes.related` — corresponding lines lead to corresponding exchanges.
* `TapeMachine.Debugger.exists_ask` — the questions of a suspension come to an end.
* `TapeMachine.Session.exists_reaches_of_asking` — a session asks as its debugger does.
* `TapeMachine.Debugger.exists_suspension` — every suspension is settled by an exchange.
* `TapeMachine.Debugger.suspension_takes_its_lines` — suspensions share out the lines.
-/

set_option autoImplicit false

namespace TapeMachine

/-! ## What a line asks for -/

/-- The words that ask for the tape. -/
def printWords : List String := ["p", "print"]

/-- How execution goes on at a word that does not ask for the tape, and what is shown to the
operator then. -/
inductive Means : String → Resume → String → Prop
  | step {word : String} (h : word ∈ ["", "s", "step"]) : Means word .step ""
  | proceed {word : String} (h : word ∈ ["c", "continue"]) : Means word .proceed ""
  | quit {word : String} (h : word ∈ ["q", "quit"]) : Means word .quit ""
  | unknown {word : String}
    (h : word ∉ printWords ++ ["", "s", "step", "c", "continue", "q", "quit"]) :
    Means word .step ("Unknown command '" ++ word ++ "', stepping\n")

/-- A line asks for the tape. -/
def AsksForTape (line : List UInt8) : Prop := ∃ word ∈ printWords, Text.Reads line word

/-- How a suspension ends with a line that does not ask for the tape, or with the end of the input,
and what is shown to the operator then. A line that is not the encoding of a text is a failure. -/
inductive Settles : Option (List UInt8) → Except IoError Resume → String → Prop
  | closed : Settles none (.ok .proceed) "\n"
  | undecodable {line : List UInt8} (h : ∀ text, line ≠ Text.encode text) :
    Settles (some line) (.error .invalidUtf8) ""
  | word {line : List UInt8} {word : String} {how : Resume} {remark : String}
    (h : Text.Reads line word) (hmeans : Means word how remark) :
    Settles (some line) (.ok how) remark

variable {line line' : List UInt8} {word remark remark' : String} {how how' : Resume}

/-- A word that tells how to go on does not ask for the tape. -/
lemma Means.not_mem_printWords (h : Means word how remark) : word ∉ printWords := by
  intro hprint
  cases h with
  | unknown h => exact h (List.mem_append_left _ hprint)
  | step h | proceed h | quit h =>
    simp only [printWords, List.mem_cons, List.not_mem_nil, or_false] at h hprint
    rcases hprint with rfl | rfl <;> simp at h

/-- A word has one meaning. -/
lemma Means.unique (h : Means word how remark) (h' : Means word how' remark') :
    how = how' ∧ remark = remark' := by
  -- the lists of words have no word in common
  cases h <;> cases h' <;> grind [printWords]

/-- A line that settles a suspension does not ask for the tape. -/
lemma Settles.not_asksForTape {outcome : Except IoError Resume}
    (h : Settles (some line) outcome remark) : ¬ AsksForTape line := by
  rintro ⟨word, hprint, hword⟩
  cases h with
  | undecodable h =>
    obtain ⟨text, htext⟩ := Text.exists_reads_iff.mp ⟨word, hword⟩
    exact h text htext
  | word h hmeans =>
    rw [h.unique hword] at hmeans
    exact hmeans.not_mem_printWords hprint

/-- The command of a text asks for the tape, or tells how to go on. -/
lemma print_or_means (text : String) :
    (Text.strip text ∈ printWords ∧ Command.ofText text = .print) ∨
      ∃ how remark, Means (Text.strip text) how remark ∧
        Debugger.reply (some (Command.ofText text)) = .resume how ∧
        ∀ radius dp tape, Debugger.echo radius dp tape (some (Command.ofText text)) = remark := by
  unfold Command.ofText
  split
  case h_1 hword | h_2 hword | h_3 hword =>
    exact Or.inr ⟨.step, "", .step (by simp [hword]), rfl, fun _ _ _ => rfl⟩
  case h_4 hword | h_5 hword =>
    exact Or.inr ⟨.proceed, "", .proceed (by simp [hword]), rfl, fun _ _ _ => rfl⟩
  case h_6 hword | h_7 hword => exact Or.inl ⟨by simp [printWords, hword], rfl⟩
  case h_8 hword | h_9 hword =>
    exact Or.inr ⟨.quit, "", .quit (by simp [hword]), rfl, fun _ _ _ => rfl⟩
  case h_10 =>
    refine Or.inr ⟨.step, _, .unknown ?_, rfl, fun _ _ _ => rfl⟩
    simp only [printWords, List.cons_append, List.nil_append, List.mem_cons, List.not_mem_nil,
      or_false, not_or]
    exact ⟨‹_›, ‹_›, ‹_›, ‹_›, ‹_›, ‹_›, ‹_›, ‹_›, ‹_›⟩

/-- The debugger reads a command on a line that is not empty, if it can be decoded. -/
lemma ofLine?_of_ne_nil (hne : line ≠ []) :
    Command.ofLine? line = (Text.decode? line).elim (.error .invalidUtf8) fun text =>
      .ok (some (.ofText text)) := by
  rw [Command.ofLine?, List.isEmpty_eq_false_iff.mpr hne, if_neg Bool.false_ne_true]
  cases Text.decode? line <;> rfl

/-- A line that asks for the tape is read as such. -/
lemma ofLine?_of_asksForTape (hne : line ≠ []) (h : AsksForTape line) :
    Command.ofLine? line = .ok (some .print) := by
  obtain ⟨word, hprint, hword⟩ := h
  obtain ⟨text, htext, rfl⟩ := Text.reads_iff.mp hword
  obtain ⟨-, hcommand⟩ | ⟨how, remark, hmeans, -⟩ := print_or_means text
  · rw [ofLine?_of_ne_nil hne, htext]
    exact congrArg (fun command => Except.ok (some command)) hcommand
  · exact absurd hprint hmeans.not_mem_printWords

/-- **What settles a suspension** is read as such: a line that does not ask for the tape, or the end
of the input. It is a failure, or a command that resumes the execution. -/
lemma settles_cases {line? : Option (List UInt8)} (hne : ∀ line ∈ line?, line ≠ [])
    (hnot : ∀ line ∈ line?, ¬ AsksForTape line) :
    (Settles line? (.error .invalidUtf8) "" ∧
        Command.ofLine? (line?.getD []) = .error .invalidUtf8) ∨
      ∃ command? how remark, Settles line? (.ok how) remark ∧
        Command.ofLine? (line?.getD []) = .ok command? ∧
        Debugger.reply command? = .resume how ∧
        ∀ radius dp tape, Debugger.echo radius dp tape command? = remark := by
  cases line? with
  | none => exact Or.inr ⟨none, _, _, .closed, rfl, rfl, fun _ _ _ => rfl⟩
  | some line =>
    rw [Option.getD_some, ofLine?_of_ne_nil (hne line rfl)]
    cases htext : Text.decode? line with
    | none =>
      refine Or.inl ⟨.undecodable ?_, rfl⟩
      rintro text rfl
      rw [Text.decode?_encode] at htext
      cases htext
    | some text =>
      have hword : Text.Reads line (Text.strip text) := Text.reads_iff.mpr ⟨text, htext, rfl⟩
      obtain ⟨hprint, -⟩ | ⟨how, remark, hmeans, hreply, hecho⟩ := print_or_means text
      · exact absurd ⟨_, hprint, hword⟩ (hnot line rfl)
      · exact Or.inr ⟨_, how, remark, .word hword hmeans, rfl, hreply, hecho⟩

/-! ## Words on lines -/

/-- Two lines have the same word on them, or there is none on either of them. -/
def SameWords (line line' : List UInt8) : Prop :=
  ∀ word, Text.Reads line word ↔ Text.Reads line' word

/-- Lines with the same word ask for the tape alike. -/
lemma SameWords.asksForTape_iff (h : SameWords line line') :
    AsksForTape line ↔ AsksForTape line' :=
  exists_congr fun word => and_congr_right fun _ => h word

section

variable {R : List UInt8 → List UInt8 → Prop}

/-- Lines with the same word settle a suspension alike. -/
lemma Settles.eq_of_rel {last? last?' : Option (List UInt8)}
    {outcome outcome' : Except IoError Resume}
    (hR : ∀ line line', R line line' → SameWords line line') (h : Settles last? outcome remark)
    (h' : Settles last?' outcome' remark') (hlast : Option.Rel R last? last?') :
    outcome = outcome' ∧ remark = remark' := by
  cases hlast with
  | none =>
    cases h
    cases h'
    exact ⟨rfl, rfl⟩
  | some hline =>
    replace hline := hR _ _ hline
    cases h with
    | undecodable h =>
      cases h' with
      | undecodable => exact ⟨rfl, rfl⟩
      | word h' _ =>
        obtain ⟨text, htext⟩ := Text.exists_reads_iff.mp ⟨_, (hline _).mpr h'⟩
        exact absurd htext (h text)
    | word h hmeans =>
      cases h' with
      | undecodable h' =>
        obtain ⟨text, htext⟩ := Text.exists_reads_iff.mp ⟨_, (hline _).mp h⟩
        exact absurd htext (h' text)
      | word h' hmeans' =>
        rw [((hline _).mp h).unique h'] at hmeans
        obtain ⟨rfl, rfl⟩ := hmeans.unique hmeans'
        exact ⟨rfl, rfl⟩

/-- Where corresponding lines first do not ask for the tape, they do so together. -/
lemma forall₂_append_of_asks (hR : ∀ line line', R line line' → SameWords line line')
    {prints prints' others others' : List (List UInt8)}
    (hprints : ∀ line ∈ prints, AsksForTape line)
    (hprints' : ∀ line ∈ prints', AsksForTape line)
    (hothers : ∀ line ∈ others.head?, ¬ AsksForTape line)
    (hothers' : ∀ line ∈ others'.head?, ¬ AsksForTape line)
    (h : List.Forall₂ R (prints ++ others) (prints' ++ others')) :
    List.Forall₂ R prints prints' ∧ List.Forall₂ R others others' := by
  induction prints generalizing prints' with
  | nil =>
    cases prints' with
    | nil => exact ⟨.nil, h⟩
    | cons line' prints' =>
      cases h with
      | cons hline _ =>
        have hasks := (hR _ _ hline).asksForTape_iff.mpr (hprints' line' List.mem_cons_self)
        exact absurd hasks (hothers _ rfl)
  | cons line prints ih =>
    cases prints' with
    | nil =>
      cases h with
      | cons hline _ =>
        have hasks := (hR _ _ hline).asksForTape_iff.mp (hprints line List.mem_cons_self)
        exact absurd hasks (hothers' _ rfl)
    | cons line' prints' =>
      obtain ⟨hline, h⟩ := List.forall₂_cons.mp h
      obtain ⟨-, hprints⟩ := List.forall_mem_cons.mp hprints
      obtain ⟨-, hprints'⟩ := List.forall_mem_cons.mp hprints'
      obtain ⟨hfront, hback⟩ := ih hprints hprints' h
      exact ⟨.cons hline hfront, hback⟩

end

/-! ## Exchanges -/

/-- What passes between the debugger and its operator in a suspension. -/
@[ext]
structure Exchange where
  /-- The lines that ask for the tape. -/
  prints : List (List UInt8)
  /-- The line behind them; there is none if the input ends there. -/
  last? : Option (List UInt8)
  /-- How the suspension ends. -/
  outcome : Except IoError Resume
  /-- What is shown to the operator at last. -/
  remark : String
  asks : ∀ line ∈ prints, AsksForTape line
  settles : Settles last? outcome remark

namespace Exchange

/-- The lines of an exchange. -/
def lines (e : Exchange) : List (List UInt8) := e.prints ++ e.last?.toList

/-- The bytes of the lines of an exchange. -/
def bytes (e : Exchange) : List UInt8 := e.lines.flatten

/-- What is shown after the first question: the tape and another question for each line that asks
for the tape, and a remark. -/
def replies (e : Exchange) (window : String) : String :=
  String.join (List.replicate e.prints.length (window ++ promptText)) ++ e.remark

/-- What is shown in an exchange about an executed instruction: its report, a question, and the
replies to the operator. -/
def text (e : Exchange) (radius : Nat) (step : Step) (tape : Tape) : String :=
  step.report ++ promptText ++ e.replies (windowText tape step.dp radius)

/-- An exchange takes its lines from the first ones of a list. It gets by without a last line only
if they are all that there are. -/
structure Takes (e : Exchange) (lines rest : List (List UInt8)) : Prop where
  lines_eq : lines = e.lines ++ rest
  closed : e.last? = none → rest = []

/-! ### Shorter and longer exchanges -/

section

variable {last? : Option (List UInt8)} {outcome : Except IoError Resume}

/-- The exchange that is settled at once. -/
def settled (h : Settles last? outcome remark) : Exchange where
  prints := []
  last?
  outcome
  remark
  asks := by simp
  settles := h

/-- The exchange with a line more that asks for the tape, in front of the others. -/
def print (e : Exchange) (h : AsksForTape line) : Exchange where
  prints := line :: e.prints
  last? := e.last?
  outcome := e.outcome
  remark := e.remark
  asks := List.forall_mem_cons.mpr ⟨h, e.asks⟩
  settles := e.settles

lemma replies_settled (h : Settles last? outcome remark) (window : String) :
    (settled h).replies window = remark :=
  String.empty_append

lemma replies_print (e : Exchange) (h : AsksForTape line) (window : String) :
    (e.print h).replies window = window ++ promptText ++ e.replies window := by
  simp only [replies, print, List.length_cons, List.replicate_succ, String.join_cons,
    String.append_assoc]

/-- An exchange that is settled at once takes the first line, if there is one. -/
lemma takes_settled {lines : List (List UInt8)} (h : Settles lines.head? outcome remark) :
    (settled h).Takes lines lines.tail := by
  cases lines with
  | nil => exact ⟨rfl, fun _ => rfl⟩
  | cons line lines =>
    refine ⟨rfl, fun hnone => ?_⟩
    cases hnone

/-- Any other exchange takes one line and then what a shorter one takes. -/
lemma Takes.print {e : Exchange} {lines rest : List (List UInt8)} (h : e.Takes lines rest)
    (hasks : AsksForTape line) : (e.print hasks).Takes (line :: lines) rest :=
  ⟨congrArg (line :: ·) h.lines_eq, h.closed⟩

end

/-! ### Comparison of exchanges -/

variable {e e' : Exchange} {lines lines' rest rest' : List (List UInt8)}

/-- Behind the lines that ask for the tape comes the last line. -/
lemma Takes.head?_eq (h : e.Takes lines rest) : (e.last?.toList ++ rest).head? = e.last? := by
  cases hlast : e.last? with
  | none => rw [h.closed hlast]; rfl
  | some line => rfl

/-- The line behind those that ask for the tape does not ask for it. -/
lemma Takes.not_asksForTape (h : e.Takes lines rest) :
    ∀ line ∈ (e.last?.toList ++ rest).head?, ¬ AsksForTape line := by
  intro line hline
  have hsettles := e.settles
  rw [h.head?_eq, Option.mem_def] at hline
  rw [hline] at hsettles
  exact hsettles.not_asksForTape

/-- **Corresponding lines lead to corresponding exchanges** with the same end, if lines that
correspond have the same word on them. -/
theorem Takes.related {R : List UInt8 → List UInt8 → Prop}
    (hR : ∀ line line', R line line' → SameWords line line') (h : e.Takes lines rest)
    (h' : e'.Takes lines' rest') (hlines : List.Forall₂ R lines lines') :
    (List.Forall₂ R e.prints e'.prints ∧ Option.Rel R e.last? e'.last?) ∧
      (e.outcome = e'.outcome ∧ e.remark = e'.remark) ∧ List.Forall₂ R rest rest' := by
  rw [h.lines_eq, h'.lines_eq, Exchange.lines, Exchange.lines, List.append_assoc,
    List.append_assoc] at hlines
  obtain ⟨hprints, hothers⟩ :=
    forall₂_append_of_asks hR e.asks e'.asks h.not_asksForTape h'.not_asksForTape hlines
  obtain ⟨hlast, hrest⟩ : Option.Rel R e.last? e'.last? ∧ List.Forall₂ R rest rest' := by
    have hclosed := h.closed
    have hclosed' := h'.closed
    generalize e.last? = last? at hothers hclosed ⊢
    generalize e'.last? = last?' at hothers hclosed' ⊢
    match last?, last?' with
    | none, none => exact ⟨.none, hothers⟩
    | some line, some line' =>
      obtain ⟨hline, hrest⟩ := List.forall₂_cons.mp hothers
      exact ⟨.some hline, hrest⟩
    -- if one of the inputs ends, so does the other
    | none, some line' =>
      rw [hclosed rfl] at hothers
      cases hothers
    | some line, none =>
      rw [hclosed' rfl] at hothers
      cases hothers
  exact ⟨⟨hprints, hlast⟩, e.settles.eq_of_rel hR e'.settles hlast, hrest⟩

/-- **Only one exchange takes its lines** from a list of lines. -/
theorem Takes.unique (h : e.Takes lines rest) (h' : e'.Takes lines rest') :
    e' = e ∧ rest' = rest := by
  have hsame : ∀ line line', line = line' → SameWords line line' := by
    rintro line _ rfl word
    exact Iff.rfl
  obtain ⟨⟨hprints, hlast⟩, ⟨houtcome, hremark⟩, hrest⟩ :=
    h'.related hsame h (List.forall₂_refl lines)
  rw [List.forall₂_eq_eq_eq] at hprints hrest
  refine ⟨Exchange.ext hprints ?_ houtcome hremark, hrest⟩
  generalize e'.last? = last?' at hlast
  generalize e.last? = last? at hlast
  cases hlast with
  | none => rfl
  | some hline => rw [hline]

/-- **Blanks around the words of the operator do not matter**: not for how a suspension goes on, and
not for what is shown in it. -/
theorem Takes.of_sameWords (h : e.Takes lines rest) (h' : e'.Takes lines' rest')
    (hlines : List.Forall₂ SameWords lines lines') :
    e.outcome = e'.outcome ∧ e.text = e'.text ∧ List.Forall₂ SameWords rest rest' := by
  obtain ⟨⟨hprints, -⟩, ⟨houtcome, hremark⟩, hrest⟩ := h.related (fun _ _ => id) h' hlines
  refine ⟨houtcome, ?_, hrest⟩
  funext radius step tape
  simp only [text, replies, hprints.length_eq, hremark]

/-- Lines that are fewer than those of an exchange ask for the tape. -/
lemma Takes.asksForTape_of_fewer (h : e.Takes lines rest) (fewer more : List (List UInt8))
    (hlines : lines = fewer ++ more) (hlt : fewer.length < e.lines.length) :
    ∀ line ∈ fewer, AsksForTape line := by
  have hle : fewer.length ≤ e.prints.length := by
    have hlast : e.last?.toList.length ≤ 1 := by
      cases e.last? <;> simp
    rw [Exchange.lines, List.length_append] at hlt
    omega
  have hfirst : fewer <+: e.prints := by
    apply List.prefix_of_prefix_length_le (hlines ▸ List.prefix_append fewer more) _ hle
    rw [h.lines_eq, Exchange.lines, List.append_assoc]
    exact List.prefix_append _ _
  exact fun line hline => e.asks line (hfirst.subset hline)

/-- The bytes that an exchange takes from the lines of some bytes are the first of these. -/
lemma Takes.eq_bytes_append {e : Exchange} {bytes bytes' : List UInt8}
    (h : e.Takes (Text.linesOf 10 bytes) (Text.linesOf 10 bytes')) : bytes = e.bytes ++ bytes' := by
  rw [← Text.flatten_linesOf 10 bytes, h.lines_eq, List.flatten_append, Text.flatten_linesOf,
    Exchange.bytes]

end Exchange

/-! ## Suspensions -/

namespace Debugger

variable {d d' : Debugger} {bytes : List UInt8}

/-- What is shown does not depend on the lines that are left. -/
lemma Shows.withCommands {text : String} (h : d.Shows text d') (r : Reader) :
    Shows { d with commands := r } text { d' with commands := r } where
  screen := h.screen
  shown := h.shown
  commands := rfl
  radius := h.radius

/-- The answer to a line decides whether the operator is asked again. -/
lemma ask_eq (d : Debugger) (dp : Int) (tape : Tape) :
    d.ask dp tape =
      match d.answer dp tape with
      | (.resume how, d') => (.ok how, d')
      | (.failed cause, d') => (.error cause, d')
      | (.again, d') => d'.ask dp tape := by
  rw [ask]
  split <;> rename_i hanswer <;> rw [hanswer]

/-- A line that cannot be read as a command is a failure. -/
lemma answer_of_error {cause : IoError} (h : d.commands.nextCommand = .error cause) (dp : Int)
    (tape : Tape) :
    d.answer dp tape = (.failed cause, { d with commands := d.commands.nextLine.2 }) := by
  have htaken : d.nextCommand =
      (d.commands.nextCommand, { d with commands := d.commands.nextLine.2 }) := rfl
  simp only [answer, htaken, h]

/-- All that a debugger `d` does after the first question: it goes through an exchange, which takes
its lines from those of the operator. -/
structure Asks (d : Debugger) (dp : Int) (tape : Tape) (bytes : List UInt8) (e : Exchange)
    (bytes' : List UInt8) (d' : Debugger) : Prop where
  ask_eq : d.ask dp tape = (e.outcome, d')
  takes : e.Takes (Text.linesOf 10 bytes) (Text.linesOf 10 bytes')
  commands : d'.commands.Delivers bytes'
  shows : Shows { d with commands := d'.commands } (e.replies (windowText tape dp d.radius)) d'

/-- The first line, or the end of the input, can settle the exchange at once. -/
lemma asks_settled {dp : Int} {tape : Tape} {bytes' : List UInt8} {outcome : Except IoError Resume}
    {remark : String} (h : Settles (Text.linesOf 10 bytes).head? outcome remark)
    (hlines : Text.linesOf 10 bytes' = (Text.linesOf 10 bytes).tail)
    (hask : d.ask dp tape = (outcome, d')) (hcommands : d'.commands.Delivers bytes')
    (hshows : Shows { d with commands := d'.commands } remark d') :
    d.Asks dp tape bytes (.settled h) bytes' d' where
  ask_eq := hask
  takes := by
    rw [hlines]
    exact Exchange.takes_settled h
  commands := hcommands
  shows := by
    rw [Exchange.replies_settled]
    exact hshows

/-- A line that asks for the tape comes in front of the exchange that the other lines lead to. -/
lemma Asks.print {dp : Int} {tape : Tape} {bytes₁ bytes' : List UInt8} {d₁ : Debugger}
    {e : Exchange} {line : List UInt8} (h : d₁.Asks dp tape bytes₁ e bytes' d')
    (hanswer : d.answer dp tape = (.again, d₁))
    (hshows :
      Shows { d with commands := d₁.commands } (windowText tape dp d.radius ++ promptText) d₁)
    (hlines : Text.linesOf 10 bytes = line :: Text.linesOf 10 bytes₁) (hasks : AsksForTape line) :
    d.Asks dp tape bytes (e.print hasks) bytes' d' where
  ask_eq := by
    rw [Debugger.ask_eq, hanswer]
    exact h.ask_eq
  takes := by
    rw [hlines]
    exact h.takes.print hasks
  commands := h.commands
  shows := by
    have hwindow : windowText tape dp d₁.radius = windowText tape dp d.radius :=
      congrArg (windowText tape dp) hshows.radius
    have hrest := h.shows
    rw [hwindow] at hrest
    rw [Exchange.replies_print]
    exact (hshows.withCommands d'.commands).append hrest

/-- The debugger takes the first line of its operator, which is not empty, if there is one. -/
lemma exists_takeLine (hcommands : d.commands.Delivers bytes) :
    ∃ bytes', d.commands.nextCommand =
        Command.ofLine? ((Text.linesOf 10 bytes).head?.getD []) ∧
      (∀ line ∈ (Text.linesOf 10 bytes).head?, line ≠ []) ∧
      d.commands.nextLine.2.Delivers bytes' ∧
      Text.linesOf 10 bytes' = (Text.linesOf 10 bytes).tail := by
  obtain ⟨r', bytes', hnext, hdelivers, hlines⟩ := hcommands.exists_nextLine
  refine ⟨bytes', ?_, ?_, ?_, hlines⟩
  · rw [Reader.nextCommand, hnext, List.headD_eq_head?_getD]
    rfl
  · exact fun line hline => Text.ne_nil_of_mem_linesOf (List.mem_of_mem_head? hline)
  · rwa [hnext]

/-- A first line that asks for the tape is answered with the tape and another question. -/
lemma exists_again {line : List UInt8} {lines : List (List UInt8)} (dp : Int) (tape : Tape)
    (hcommands : d.commands.Delivers bytes) (hscreen : d.screen.Reliable)
    (hlines : Text.linesOf 10 bytes = line :: lines) (hasks : AsksForTape line) :
    ∃ bytes₁ d₁, d.answer dp tape = (.again, d₁) ∧ d₁.commands.Delivers bytes₁ ∧
      Text.linesOf 10 bytes₁ = lines ∧
      Shows { d with commands := d₁.commands } (windowText tape dp d.radius ++ promptText) d₁ := by
  obtain ⟨bytes₁, hread, hne, hdelivers, hrest⟩ := exists_takeLine hcommands
  rw [hlines] at hread hne hrest
  have hcommand := ofLine?_of_asksForTape (hne line rfl) hasks
  obtain ⟨d₁, hanswer, hshows⟩ := exists_answer hscreen (hread.trans hcommand) dp tape
  refine ⟨bytes₁, d₁, hanswer, ?_, hrest, ?_⟩
  · rwa [hshows.commands]
  · rwa [hshows.commands]

/-- Any other first line settles the suspension, and so does the end of the input. -/
lemma exists_asks_of_not_asksForTape (dp : Int) (tape : Tape)
    (hcommands : d.commands.Delivers bytes) (hscreen : d.screen.Reliable)
    (hnot : ∀ line ∈ (Text.linesOf 10 bytes).head?, ¬ AsksForTape line) :
    ∃ e bytes' d', d.Asks dp tape bytes e bytes' d' := by
  obtain ⟨bytes', hread, hne, hdelivers, hrest⟩ := exists_takeLine hcommands
  obtain ⟨hsettles, hcommand⟩ | ⟨command?, how, remark, hsettles, hcommand, hreply, hecho⟩ :=
    settles_cases hne hnot
  · have hanswer := answer_of_error (hread.trans hcommand) dp tape
    refine ⟨_, bytes', { d with commands := d.commands.nextLine.2 },
      asks_settled hsettles hrest ?_ hdelivers (shows_empty hscreen)⟩
    rw [ask_eq, hanswer]
  · obtain ⟨d', hanswer, hshows⟩ := exists_answer hscreen (hread.trans hcommand) dp tape
    rw [hecho] at hshows
    refine ⟨_, bytes', d', asks_settled hsettles hrest ?_ ?_ ?_⟩
    · rw [ask_eq, hanswer, hreply]
    · rwa [hshows.commands]
    · rwa [hshows.commands]

/-- **The questions of a suspension come to an end**, on a screen that never fails: the debugger
takes the lines of an exchange from those of its operator, and leaves the others.

**Proof sketch.** Induction on the lines. One that asks for the tape goes in front of the exchange
that the others lead to. -/
theorem exists_ask (dp : Int) (tape : Tape) (hcommands : d.commands.Delivers bytes)
    (hscreen : d.screen.Reliable) : ∃ e bytes' d', d.Asks dp tape bytes e bytes' d' := by
  generalize hlines : Text.linesOf 10 bytes = lines
  induction lines generalizing d bytes with
  | nil =>
    apply exists_asks_of_not_asksForTape dp tape hcommands hscreen
    simp [hlines]
  | cons line lines ih =>
    by_cases hasks : AsksForTape line
    · obtain ⟨bytes₁, d₁, hanswer, hcommands₁, rfl, hshows⟩ :=
        exists_again dp tape hcommands hscreen hlines hasks
      obtain ⟨e, bytes', d', hrest⟩ := ih hcommands₁ hshows.screen rfl
      exact ⟨e.print hasks, bytes', d', hrest.print hanswer hshows hlines hasks⟩
    · apply exists_asks_of_not_asksForTape dp tape hcommands hscreen
      simpa [hlines] using hasks

end Debugger

/-! ## Questions of a session -/

namespace Session

variable {s : Session}

lemma operator_withOperator (s : Session) (d : Debugger) : (s.withOperator d).operator = d := by
  unfold operator commands withOperator
  cases s.wiring <;> rfl

lemma withOperator_withOperator (s : Session) (d d' : Debugger) :
    (s.withOperator d).withOperator d' = s.withOperator d' := by
  unfold withOperator
  cases s.wiring <;> rfl

/-- Taking the debugger back leaves the rest of a session as it is. -/
lemma withOperator_frame (s : Session) (d : Debugger) :
    (s.withOperator d).machine.finished = s.machine.finished ∧
      (s.withOperator d).phase = s.phase ∧
      (s.withOperator d).machine.tape = s.machine.tape := by
  unfold withOperator
  cases s.wiring <;> exact ⟨rfl, rfl, rfl⟩

/-- A session that waits for the operator takes a line, from wherever the lines come. -/
lemma step_eq_of_asking (hf : s.machine.finished = false) {report : Step}
    (hp : s.phase = .asking report) :
    s.step =
      match s.operator.answer report.dp s.machine.tape with
      | (.failed cause, d) => .ended (.error (.io cause)) (s.withOperator d)
      | (.again, d) => .running (s.withOperator d)
      | (.resume how, d) => (s.withOperator d).resume how := by
  unfold step
  rewrite [hf, hp]
  rfl

/-- **A session asks as its debugger does**: one line at a time it gets to where all the questions
of the suspension lead, and goes on from there.

**Proof sketch.** Induction on the questions. While the operator is asked again the session stays
where it is. -/
theorem exists_reaches_of_asking (hf : s.machine.finished = false) {report : Step}
    (hp : s.phase = .asking report) :
    ∃ s', Progress.Reaches step s s' ∧
      s'.step =
        match s.operator.ask report.dp s.machine.tape with
        | (.ok how, d) => (s.withOperator d).resume how
        | (.error cause, d) => .ended (.error (.io cause)) (s.withOperator d) := by
  have hstep := step_eq_of_asking hf hp
  generalize hd : s.operator = d at hstep
  generalize htape : s.machine.tape = tape at hstep
  rw [Debugger.ask_eq]
  induction d using Debugger.ask.induct report.dp tape generalizing s with
  | case1 d how d' hanswer =>
    rw [hanswer] at hstep ⊢
    exact ⟨s, .refl s, hstep⟩
  | case2 d cause d' hanswer =>
    rw [hanswer] at hstep ⊢
    exact ⟨s, .refl s, hstep⟩
  | case3 d d' hanswer ih =>
    rw [hanswer] at hstep ⊢
    obtain ⟨hfinished, hphase, htape'⟩ := s.withOperator_frame d'
    have hoperator := s.operator_withOperator d'
    have hnext := step_eq_of_asking (hfinished.trans hf) (hphase.trans hp)
    rw [hoperator, htape', htape] at hnext
    obtain ⟨s', hreaches, hs'⟩ :=
      ih (hfinished.trans hf) (hphase.trans hp) hoperator (htape'.trans htape) hnext
    refine ⟨s', .running hstep hreaches, ?_⟩
    simp only [withOperator_withOperator] at hs'
    rw [hs', ← Debugger.ask_eq]

end Session

namespace Debugger

variable {d d' : Debugger} {bytes : List UInt8}

/-- All that a debugger `d` does in a suspension, with some bytes left from its operator. It becomes
`d'`, and leaves the bytes `bytes'`. -/
structure Suspension (d : Debugger) (step : Step) (tape : Tape) (bytes : List UInt8) (e : Exchange)
    (bytes' : List UInt8) (d' : Debugger) : Prop where
  /-- The suspension ends as its exchange does. -/
  suspend_eq : d.suspend step tape = (e.outcome, d')
  /-- The exchange takes its lines from those of the operator. -/
  takes : e.Takes (Text.linesOf 10 bytes) (Text.linesOf 10 bytes')
  /-- No other exchange can take its lines from there. -/
  unique : ∀ (e₂ : Exchange) (rest : List (List UInt8)),
    e₂.Takes (Text.linesOf 10 bytes) rest → e₂ = e
  /-- Fewer lines settle nothing: all of them ask for the tape. -/
  shortest : ∀ fewer more : List (List UInt8), Text.linesOf 10 bytes = fewer ++ more →
    fewer.length < e.lines.length → ∀ line ∈ fewer, AsksForTape line
  /-- The bytes of these lines are taken, and no others. -/
  bytes_eq : bytes = e.bytes ++ bytes'
  commands : d'.commands.Delivers bytes'
  /-- What is shown is the text of the exchange. -/
  shown : d'.shown = d.shown ++ Text.encode (e.text d.radius step tape)
  screen : d'.screen.Reliable
  radius : d'.radius = d.radius

/-- **Every suspension is settled by an exchange**, on a screen that never fails. -/
theorem exists_suspension (hcommands : d.commands.Delivers bytes) (hscreen : d.screen.Reliable)
    (step : Step) (tape : Tape) : ∃ e bytes' d', d.Suspension step tape bytes e bytes' d' := by
  obtain ⟨d₁, hannounce, hshows₁⟩ := exists_announce hscreen step
  obtain ⟨e, bytes', d', hasks⟩ :=
    exists_ask step.dp tape (hshows₁.commands ▸ hcommands) hshows₁.screen
  have hwindow : windowText tape step.dp d₁.radius = windowText tape step.dp d.radius :=
    congrArg (windowText tape step.dp) hshows₁.radius
  have hshows := hasks.shows
  rw [hwindow] at hshows
  replace hshows := (hshows₁.withCommands d'.commands).append hshows
  exact ⟨e, bytes', d',
    { suspend_eq := by
        simp only [suspend, hannounce]
        exact hasks.ask_eq
      takes := hasks.takes
      unique := fun e₂ rest h => (hasks.takes.unique h).1
      shortest := hasks.takes.asksForTape_of_fewer
      bytes_eq := hasks.takes.eq_bytes_append
      commands := hasks.commands
      shown := hshows.shown
      screen := hshows.screen
      radius := hshows.radius }⟩

/-! ## Series of suspensions -/

/-- A series of suspensions of one debugger, whatever comes of them. -/
def suspendAll : List (Step × Tape) → Debugger → List (Except IoError Resume) × Debugger
  | [], d => ([], d)
  | (step, tape) :: series, d =>
    let first := d.suspend step tape
    let others := suspendAll series first.2
    (first.1 :: others.1, others.2)

/-- A debugger goes through a series of suspensions, each of which goes on with the bytes that the
one before has left. -/
inductive Suspensions : Debugger → List UInt8 → List (Step × Tape) → List Exchange →
    List UInt8 → Debugger → Prop
  | nil {d : Debugger} {bytes : List UInt8} (h : d.commands.Delivers bytes) :
    Suspensions d bytes [] [] bytes d
  | cons {d d₁ d' : Debugger} {bytes bytes₁ bytes' : List UInt8} {step : Step} {tape : Tape}
    {series : List (Step × Tape)} {e : Exchange} {es : List Exchange}
    (first : d.Suspension step tape bytes e bytes₁ d₁)
    (others : Suspensions d₁ bytes₁ series es bytes' d') :
    Suspensions d bytes ((step, tape) :: series) (e :: es) bytes' d'

variable {bytes' : List UInt8} {series : List (Step × Tape)} {es : List Exchange}

/-- Every series of suspensions can be gone through. -/
lemma exists_suspensions (hcommands : d.commands.Delivers bytes) (hscreen : d.screen.Reliable)
    (series : List (Step × Tape)) : ∃ es bytes' d', Suspensions d bytes series es bytes' d' := by
  induction series generalizing d bytes with
  | nil => exact ⟨[], bytes, d, .nil hcommands⟩
  | cons suspended series ih =>
    obtain ⟨step, tape⟩ := suspended
    obtain ⟨e, bytes₁, d₁, hfirst⟩ := exists_suspension hcommands hscreen step tape
    obtain ⟨es, bytes', d', hothers⟩ := ih hfirst.commands hfirst.screen
    exact ⟨e :: es, bytes', d', .cons hfirst hothers⟩

namespace Suspensions

/-- A series ends as its exchanges do. -/
lemma suspendAll_eq (h : Suspensions d bytes series es bytes' d') :
    suspendAll series d = (es.map Exchange.outcome, d') := by
  induction h with
  | nil => rfl
  | cons first _ ih => simp only [suspendAll, first.suspend_eq, ih, List.map_cons]

/-- What is left behind a series is still to be delivered. -/
lemma commands (h : Suspensions d bytes series es bytes' d') : d'.commands.Delivers bytes' := by
  induction h with
  | nil h => exact h
  | cons _ _ ih => exact ih

/-- **The suspensions of a series share out the bytes**: each takes those behind the ones that the
suspensions before it have taken. -/
theorem bytes_eq (h : Suspensions d bytes series es bytes' d') :
    bytes = es.flatMap Exchange.bytes ++ bytes' := by
  induction h with
  | nil => rfl
  | cons first _ ih => rw [List.flatMap_cons, List.append_assoc, ← ih, ← first.bytes_eq]

/-- **Operators with the same words lead through the same series.** -/
theorem of_sameWords {d₂ d₂' : Debugger} {bytes₂ bytes₂' : List UInt8} {es₂ : List Exchange}
    (h : Suspensions d bytes series es bytes' d')
    (h₂ : Suspensions d₂ bytes₂ series es₂ bytes₂' d₂') (hradius : d₂.radius = d.radius)
    (hlines : List.Forall₂ SameWords (Text.linesOf 10 bytes) (Text.linesOf 10 bytes₂)) :
    es.map Exchange.outcome = es₂.map Exchange.outcome ∧
      ∃ text, d'.shown = d.shown ++ text ∧ d₂'.shown = d₂.shown ++ text := by
  induction h generalizing d₂ bytes₂ es₂ with
  | nil =>
    cases h₂
    exact ⟨rfl, [], (List.append_nil _).symm, (List.append_nil _).symm⟩
  | @cons d _ _ _ _ _ step tape _ e _ first _ ih =>
    cases h₂ with
    | cons first₂ others₂ =>
      obtain ⟨houtcome, htext, hrest⟩ := first.takes.of_sameWords first₂.takes hlines
      have hradius₁ := first₂.radius.trans (hradius.trans first.radius.symm)
      obtain ⟨houtcomes, text, hshown, hshown₂⟩ := ih others₂ hradius₁ hrest
      refine ⟨by rw [List.map_cons, List.map_cons, houtcome, houtcomes],
        Text.encode (e.text d.radius step tape) ++ text, ?_, ?_⟩
      · rw [hshown, first.shown, List.append_assoc]
      · rw [hshown₂, first₂.shown, hradius, htext, List.append_assoc]

end Suspensions

/-- The suspensions of a debugger share out the lines of its operator. -/
structure SharesOut (d : Debugger) (bytes : List UInt8) : Prop where
  /-- A suspension takes just the lines that settle it. -/
  suspension : ∀ step tape, ∃ e bytes' d', d.Suspension step tape bytes e bytes' d'
  /-- A series of suspensions takes every byte once, up to those that are left. -/
  series : ∀ series, ∃ es bytes' d', Suspensions d bytes series es bytes' d' ∧
    suspendAll series d = (es.map Exchange.outcome, d') ∧
    bytes = es.flatMap Exchange.bytes ++ bytes' ∧ d'.commands.Delivers bytes'
  /-- Blanks around the words of the operator make no difference. -/
  words : ∀ (d₂ : Debugger) (bytes₂ : List UInt8), d₂.commands.Delivers bytes₂ →
    d₂.screen.Reliable → d₂.radius = d.radius →
    List.Forall₂ SameWords (Text.linesOf 10 bytes) (Text.linesOf 10 bytes₂) → ∀ series,
      (suspendAll series d).1 = (suspendAll series d₂).1 ∧
        ∃ text, (suspendAll series d).2.shown = d.shown ++ text ∧
          (suspendAll series d₂).2.shown = d₂.shown ++ text

end Debugger

end TapeMachine
