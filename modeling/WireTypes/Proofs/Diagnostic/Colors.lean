import WireTypes.Diagnostic.Terminal
import WireTypes.Proofs.Text.Digits

/-!
# Colours

A terminal reads characters, and between them sequences from an escape character and `[` to the next
`m` (`pieces`).  `Colored colored plain` says that the coloured text has the characters of the plain
one, and that each of its sequences is the start of a colour with one reset behind it, or that
reset.  It holds of painted words, it is kept when texts are put behind each other, and so every
line is the coloured form of its plain line:

* `Colored.painted`, `Colored.append`, `Colored.join`: texts from their parts,
* `Terminal.colored_render`, `Terminal.colored_summary`: the two things that are written,
* `Terminal.colored_report`, `Terminal.colors_add_sequences`: whole outputs.
-/

namespace WireTypes

/-! ## Texts without escape characters -/

def NoEscape (s : String) : Prop := '\x1b' ∉ s.toList

instance (s : String) : Decidable (NoEscape s) := inferInstanceAs (Decidable ('\x1b' ∉ s.toList))

@[simp] theorem noEscape_append {s t : String} : NoEscape (s ++ t) ↔ NoEscape s ∧ NoEscape t := by
  unfold NoEscape
  rw [String.toList_append, List.mem_append, not_or]

@[simp] theorem noEscape_toString_nat (n : Nat) : NoEscape (toString n) := by
  have hdigits := not_mem_toDigits (c := '\x1b') (by decide) n
  simpa [NoEscape, toString, Nat.toList_repr] using hdigits

@[simp] theorem noEscape_toString_uint32 (n : UInt32) : NoEscape (toString n) :=
  noEscape_toString_nat n.toNat

/-! ## What a terminal reads -/

/-- A character to show, or a sequence that shows nothing. -/
inductive Piece where
  | char (c : Char)
  | sequence (s : String)
  deriving DecidableEq, Repr

namespace Piece

def char? : Piece → Option Char
  | char c => some c
  | sequence _ => none

def sequence? : Piece → Option String
  | char _ => none
  | sequence s => some s

theorem filterMap_char?_map (cs : List Char) : (cs.map char).filterMap char? = cs := by
  rw [List.filterMap_map]
  exact List.filterMap_some

theorem filterMap_sequence?_map (cs : List Char) : (cs.map char).filterMap sequence? = [] := by
  rw [List.filterMap_map]
  exact List.filterMap_eq_nil_iff.mpr fun _ _ => rfl

end Piece

/-- What the text is read as.  Inside a sequence there is what was read of it, the last character
first; a sequence that does not end is no sequence. -/
def pieces : Option (List Char) → List Char → List Piece
  | none, [] => []
  | none, '\x1b' :: '[' :: cs => pieces (some ['[', '\x1b']) cs
  | none, c :: cs => .char c :: pieces none cs
  | some seen, [] => seen.reverse.map .char
  | some seen, 'm' :: cs => .sequence (.ofList (seen.reverse ++ ['m'])) :: pieces none cs
  | some seen, c :: cs => pieces (some (c :: seen)) cs

/-- The text without its sequences. -/
def stripped (s : String) : String := .ofList ((pieces none s.toList).filterMap Piece.char?)

def sequences (s : String) : List String := (pieces none s.toList).filterMap Piece.sequence?

/-- A text without escape characters is read as it is, whatever comes behind it. -/
theorem pieces_append {cs : List Char} (h : '\x1b' ∉ cs) (rest : List Char) :
    pieces none (cs ++ rest) = cs.map .char ++ pieces none rest := by
  induction cs with
  | nil => rfl
  | cons c cs ih =>
    have hc : c ≠ '\x1b' := fun hc => h (hc ▸ List.mem_cons_self)
    have hcs : '\x1b' ∉ cs := fun hcs => h (List.mem_cons_of_mem c hcs)
    have hstep : pieces none (c :: (cs ++ rest)) = .char c :: pieces none (cs ++ rest) := by
      rw [pieces]
      exact fun _ hc' => absurd hc' hc
    rw [List.cons_append, hstep, ih hcs]
    rfl

/-! ## Colours that end -/

namespace Palette

/-- The sequences that start a colour. -/
def starts (p : Palette) : List String :=
  [p.error, p.warning, p.note, p.help, p.emphasis, p.context]

theorem ofSeverity_mem_starts (p : Palette) (severity : Severity) :
    p.ofSeverity severity ∈ p.starts := by
  cases severity <;> simp [starts, ofSeverity]

theorem pieces_start {color : String} (h : color ∈ ansi.starts) (rest : List Char) :
    pieces none (color.toList ++ rest) = .sequence color :: pieces none rest := by
  simp only [starts, ansi, List.mem_cons, List.not_mem_nil, or_false] at h
  rcases h with rfl | rfl | rfl | rfl | rfl | rfl <;> rfl

theorem pieces_reset (rest : List Char) :
    pieces none (reset.toList ++ rest) = .sequence reset :: pieces none rest := rfl

theorem isEmpty_start {color : String} (h : color ∈ ansi.starts) : color.isEmpty = false := by
  simp only [starts, ansi, List.mem_cons, List.not_mem_nil, or_false] at h
  rcases h with rfl | rfl | rfl | rfl | rfl | rfl <;> rfl

end Palette

/-- Behind each start of a colour there is one reset, before the next start and before the end. -/
inductive Closed : List String → Prop
  | nil : Closed []
  | color {start : String} {rest : List String} (hstart : start ∈ Palette.ansi.starts)
      (hrest : Closed rest) :
      Closed (start :: Palette.reset :: rest)

theorem Closed.append {xs ys : List String} (hxs : Closed xs) (hys : Closed ys) :
    Closed (xs ++ ys) := by
  induction hxs with
  | nil => exact hys
  | color hstart _ ih => exact .color hstart ih

/-! ## Coloured texts -/

/-- The coloured text is the plain text with colours that end.  It is read before
what comes behind it. -/
structure Colored (colored plain : String) : Prop where
  noEscape : NoEscape plain
  reads : ∃ ps, (∀ rest, pieces none (colored.toList ++ rest) = ps ++ pieces none rest) ∧
    ps.filterMap Piece.char? = plain.toList ∧ Closed (ps.filterMap Piece.sequence?)

namespace Colored

variable {colored plain colored' plain' : String}

theorem closed (h : Colored colored plain) : Closed (sequences colored) := by
  obtain ⟨ps, hpieces, -, hclosed⟩ := h.reads
  have hall : pieces none colored.toList = ps := by simpa [pieces] using hpieces []
  rwa [sequences, hall]

/-- Nothing that is written later is read otherwise than alone. -/
theorem before (h : Colored colored plain) (later : String) :
    stripped (colored ++ later) = plain ++ stripped later ∧
      sequences (colored ++ later) = sequences colored ++ sequences later := by
  obtain ⟨ps, hpieces, hchars, -⟩ := h.reads
  have hall : pieces none colored.toList = ps := by simpa [pieces] using hpieces []
  have happend : pieces none (colored ++ later).toList = ps ++ pieces none later.toList := by
    rw [String.toList_append, hpieces]
  constructor
  · rw [stripped, stripped, happend, List.filterMap_append, hchars, String.ofList_append,
      String.ofList_toList]
  · rw [sequences, sequences, sequences, happend, hall, List.filterMap_append]

theorem stripped_eq (h : Colored colored plain) : stripped colored = plain := by
  have hnothing := (h.before "").1
  rwa [String.append_empty, show stripped "" = "" from rfl, String.append_empty] at hnothing

theorem text {s : String} (hs : NoEscape s) : Colored s s := by
  refine ⟨hs, s.toList.map .char, pieces_append hs, Piece.filterMap_char?_map s.toList, ?_⟩
  rw [Piece.filterMap_sequence?_map]
  exact .nil

theorem append (h : Colored colored plain) (h' : Colored colored' plain') :
    Colored (colored ++ colored') (plain ++ plain') := by
  obtain ⟨ps, hpieces, hchars, hclosed⟩ := h.reads
  obtain ⟨ps', hpieces', hchars', hclosed'⟩ := h'.reads
  refine ⟨noEscape_append.mpr ⟨h.noEscape, h'.noEscape⟩, ps ++ ps', fun rest => ?_, ?_, ?_⟩
  · rw [String.toList_append, List.append_assoc, hpieces, hpieces', List.append_assoc]
  · rw [List.filterMap_append, hchars, hchars', String.toList_append]
  · rw [List.filterMap_append]
    exact hclosed.append hclosed'

theorem painted {color s : String} (hcolor : color ∈ Palette.ansi.starts) (hs : NoEscape s) :
    Colored (paint color s) (paint "" s) := by
  have hpainted : paint color s = color ++ s ++ Palette.reset := by
    rw [paint, Palette.isEmpty_start hcolor, if_neg Bool.false_ne_true]
  have hplain : paint "" s = s := rfl
  rw [hpainted, hplain]
  refine ⟨hs, .sequence color :: (s.toList.map .char ++ [.sequence Palette.reset]),
    fun rest => ?_, ?_, ?_⟩
  · rw [String.toList_append, String.toList_append, List.append_assoc, List.append_assoc,
      Palette.pieces_start hcolor, pieces_append hs, Palette.pieces_reset, List.cons_append,
      List.append_assoc]
    rfl
  · rw [List.filterMap_cons_none rfl, List.filterMap_append, Piece.filterMap_char?_map]
    exact List.append_nil _
  · have hcolor? : (Piece.sequence color).sequence? = some color := rfl
    rw [List.filterMap_cons_some hcolor?, List.filterMap_append, Piece.filterMap_sequence?_map]
    exact .color hcolor .nil

/-- Texts around a painted word. -/
theorem around {before color word behind : String} (hbefore : NoEscape before)
    (hcolor : color ∈ Palette.ansi.starts) (hword : NoEscape word) (hbehind : NoEscape behind) :
    Colored (before ++ paint color word ++ behind) (before ++ paint "" word ++ behind) :=
  ((text hbefore).append (painted hcolor hword)).append (text hbehind)

theorem join {α : Type} {f g : α → String} {xs : List α} (h : ∀ x ∈ xs, Colored (f x) (g x)) :
    Colored (String.join (xs.map f)) (String.join (xs.map g)) := by
  induction xs with
  | nil => exact text (s := "") (by decide)
  | cons x xs ih =>
    rw [List.map_cons, List.map_cons, String.join_cons, String.join_cons]
    exact (h x List.mem_cons_self).append (ih fun y hy => h y (List.mem_cons_of_mem x hy))

end Colored

/-! ## The lines -/

structure Diagnostic.NoEscape (d : Diagnostic) : Prop where
  message : WireTypes.NoEscape d.message
  labels : ∀ l ∈ d.labels, WireTypes.NoEscape l.message
  notes : ∀ text ∈ d.notes, WireTypes.NoEscape text
  suggestions : ∀ text ∈ d.suggestions, WireTypes.NoEscape text

theorem Palette.ofSeverity_plain (severity : Severity) : plain.ofSeverity severity = "" := by
  cases severity <;> rfl

namespace Terminal

theorem colored_remarkLine {color kind text : String} (hcolor : color ∈ Palette.ansi.starts)
    (hkind : NoEscape kind) (htext : NoEscape text) :
    Colored (remarkLine kind color text) (remarkLine kind "" text) := by
  have hbehind : NoEscape (": " ++ text ++ "\n") := by
    simp only [noEscape_append]
    exact ⟨⟨by decide, htext⟩, by decide⟩
  have hline : Colored ("  = " ++ paint color kind ++ (": " ++ text ++ "\n"))
      ("  = " ++ paint "" kind ++ (": " ++ text ++ "\n")) :=
        .around (by decide) hcolor hkind hbehind
  simpa only [remarkLine, toString, String.append_assoc] using hline

section

variable {origin : Option String} (horigin : ∀ s ∈ origin, NoEscape s)

include horigin

theorem noEscape_location (palette : Palette) (span : Span) :
    NoEscape (location ⟨palette, origin⟩ span) := by
  have hspan : NoEscape span.display := by
    simp only [Span.display, noEscape_append, noEscape_toString_uint32]
    decide
  cases origin with
  | none => exact hspan
  | some s =>
    simp only [location, noEscape_append]
    exact ⟨⟨horigin s rfl, by decide⟩, hspan⟩

theorem colored_labelLine {l : Label} (hl : NoEscape l.message) :
    Colored (labelLine ⟨.ansi, origin⟩ l) (labelLine ⟨.plain, origin⟩ l) := by
  have hbefore (marker : String) (hmarker : NoEscape marker) :
      NoEscape ("  " ++ marker ++ " " ++ location ⟨.ansi, origin⟩ l.span ++ ": ") := by
    simp only [noEscape_append]
    exact ⟨⟨⟨⟨by decide, hmarker⟩, by decide⟩, noEscape_location horigin _ l.span⟩, by decide⟩
  unfold labelLine
  cases l.primary with
  | true => exact .around (hbefore "-->" (by decide)) (by simp [Palette.starts]) hl (by decide)
  | false => exact .around (hbefore "..." (by decide)) (by simp [Palette.starts]) hl (by decide)

omit horigin in
theorem colored_headline {d : Diagnostic} (hd : d.NoEscape) :
    Colored (headline ⟨.ansi, origin⟩ d) (headline ⟨.plain, origin⟩ d) := by
  have hword : NoEscape d.severity.word := by cases d.severity <;> decide
  have hcode : NoEscape s!"[{d.code.number}]" := by
    simp only [noEscape_append]
    exact ⟨⟨by decide, by cases d.code <;> decide⟩, by decide⟩
  have hmessage : NoEscape s!": {d.message}\n" := by
    simp only [noEscape_append]
    exact ⟨⟨by decide, hd.message⟩, by decide⟩
  unfold headline
  rw [Palette.ofSeverity_plain]
  exact ((Colored.painted (Palette.ofSeverity_mem_starts .ansi d.severity) hword).append
    (.painted (by simp [Palette.starts]) hcode)).append (.text hmessage)

theorem colored_render {d : Diagnostic} (hd : d.NoEscape) :
    Colored (render ⟨.ansi, origin⟩ d) (render ⟨.plain, origin⟩ d) := by
  have hlabels : ∀ l ∈ d.labels.filter (·.span ≠ .dummy),
      Colored (labelLine ⟨.ansi, origin⟩ l) (labelLine ⟨.plain, origin⟩ l) :=
    fun l hl => colored_labelLine horigin (hd.labels l (List.mem_filter.mp hl).1)
  have hnotes : ∀ text ∈ d.notes,
      Colored (remarkLine "note" Palette.ansi.emphasis text) (remarkLine "note" "" text) :=
    fun text htext => colored_remarkLine (by simp [Palette.starts])
      (by decide) (hd.notes text htext)
  have hsuggestions : ∀ text ∈ d.suggestions,
      Colored (remarkLine "help" Palette.ansi.help text) (remarkLine "help" "" text) :=
    fun text htext => colored_remarkLine (by simp [Palette.starts])
      (by decide) (hd.suggestions text htext)
  exact ((((colored_headline hd).append (.join hlabels)).append (.join hnotes)).append
    (.join hsuggestions)).append (.text (by decide))

theorem noEscape_subject (palette : Palette) : NoEscape (subject ⟨palette, origin⟩) := by
  cases origin with
  | none => exact (by decide : NoEscape "input")
  | some s =>
    simp only [subject, noEscape_append]
    exact ⟨⟨by decide, horigin s rfl⟩, by decide⟩

theorem colored_summary (errors warnings : Nat) :
    Colored (summary ⟨.ansi, origin⟩ errors warnings)
      (summary ⟨.plain, origin⟩ errors warnings) := by
  have herrors : NoEscape (errorPhrase errors) := by
    unfold errorPhrase
    split
    · decide
    · simp only [noEscape_append, noEscape_toString_nat]
      decide
  have hwarnings : NoEscape (warningPhrase warnings) := by
    unfold warningPhrase
    split
    · decide
    · simp only [noEscape_append, noEscape_toString_nat]
      decide
  have hcause :
      NoEscape s!": could not lower {subject ⟨.ansi, origin⟩} due to {errorPhrase errors}" := by
    simp only [noEscape_append]
    exact ⟨⟨⟨by decide, noEscape_subject horigin _⟩, by decide⟩, herrors⟩
  have hmore : NoEscape (if 0 < warnings then s!"; {warningPhrase warnings} emitted" else "") := by
    split
    · simp only [noEscape_append]
      exact ⟨⟨by decide, hwarnings⟩, by decide⟩
    · decide
  have hemitted : NoEscape s!": {warningPhrase warnings} emitted\n" := by
    simp only [noEscape_append]
    exact ⟨⟨by decide, hwarnings⟩, by decide⟩
  unfold summary
  split
  · exact (((Colored.painted (by simp [Palette.starts]) (by decide)).append (.text hcause)).append
      (.text hmore)).append (.text (by decide))
  · split
    · exact (Colored.painted (by simp [Palette.starts]) (by decide)).append (.text hemitted)
    · exact .text (by decide)

end

/-! ## Outputs -/

/-- What is written at once. -/
inductive Emission where
  | diagnostic (d : Diagnostic)
  | summary (errors warnings : Nat)

/-- No text has escape characters; a summary has none of its own. -/
def Emission.NoEscape : Emission → Prop
  | diagnostic d => d.NoEscape
  | summary _ _ => True

def emit (t : Terminal) : Emission → String
  | .diagnostic d => t.render d
  | .summary errors warnings => t.summary errors warnings

def emitAll (t : Terminal) (es : List Emission) : String := String.join (es.map t.emit)

theorem report_eq_emitAll (t : Terminal) (ds : List Diagnostic) :
    t.report ds =
      t.emitAll (ds.map .diagnostic ++
        [.summary (Diagnostic.errorCount ds) (Diagnostic.warningCount ds)]) := by
  rw [report, renderAll, emitAll, List.map_append, List.map_map, String.join_append]
  rfl

theorem colored_emitAll {origin : Option String} {es : List Emission}
    (horigin : ∀ s ∈ origin, NoEscape s) (hes : ∀ e ∈ es, e.NoEscape) :
    Colored (emitAll ⟨.ansi, origin⟩ es) (emitAll ⟨.plain, origin⟩ es) := by
  refine .join fun e he => ?_
  cases e with
  | diagnostic d => exact colored_render horigin (hes _ he)
  | summary errors warnings => exact colored_summary horigin errors warnings

theorem colored_report {origin : Option String} {ds : List Diagnostic}
    (horigin : ∀ s ∈ origin, NoEscape s) (hds : ∀ d ∈ ds, d.NoEscape) :
    Colored (report ⟨.ansi, origin⟩ ds) (report ⟨.plain, origin⟩ ds) := by
  rw [report_eq_emitAll, report_eq_emitAll]
  refine colored_emitAll horigin fun e he => ?_
  rcases List.mem_append.mp he with he | he
  · obtain ⟨d, hd, rfl⟩ := List.mem_map.mp he
    exact hds d hd
  · rw [List.mem_singleton.mp he]
    trivial

/-- **Colours add sequences and nothing else.**  Without the sequences the coloured output is the
plain one.  Each colour ends before the next one and before the end, so what is written later is
read as if nothing stood before it. -/
theorem colors_add_sequences {origin : Option String} {es : List Emission}
    (horigin : ∀ s ∈ origin, NoEscape s) (hes : ∀ e ∈ es, e.NoEscape) :
    stripped (emitAll ⟨.ansi, origin⟩ es) = emitAll ⟨.plain, origin⟩ es ∧
    NoEscape (emitAll ⟨.plain, origin⟩ es) ∧
    Closed (sequences (emitAll ⟨.ansi, origin⟩ es)) ∧
    ∀ later,
      stripped (emitAll ⟨.ansi, origin⟩ es ++ later) =
        emitAll ⟨.plain, origin⟩ es ++ stripped later ∧
      sequences (emitAll ⟨.ansi, origin⟩ es ++ later) = sequences (emitAll ⟨.ansi, origin⟩ es) ++
        sequences later := by
  have hall := colored_emitAll horigin hes
  exact ⟨hall.stripped_eq, hall.noEscape, hall.closed, hall.before⟩

/-- An error with a place at fault, a place around it, and both kinds of remarks;
one warning beside it. -/
theorem colors_add_sequences_misaligned :
    let d : Diagnostic := ⟨.misalignedHeader, .error, "header is 60 bits wide",
      [⟨⟨10, 15⟩, "60 bits", true⟩, ⟨⟨0, 40⟩, "in this header", false⟩, ⟨.dummy, "here", true⟩],
      ["headers are byte arrays"], ["add padding"]⟩
    let es : List Emission := [.diagnostic d, .summary 1 1]
    let plain :=
      "error[E3002]: header is 60 bits wide\n  --> sw@10..15: 60 bits\n  ... sw@0..40: in this header\n" ++
      "  = note: headers are byte arrays\n  = help: add padding\n\n" ++
      "error: could not lower `sw` due to previous error; 1 warning emitted\n"
    (∀ s ∈ some "sw", NoEscape s) ∧ (∀ e ∈ es, e.NoEscape) ∧
      stripped (emitAll ⟨.ansi, some "sw"⟩ es) = plain ∧
      Closed (sequences (emitAll ⟨.ansi, some "sw"⟩ es)) := by
  intro d es plain
  have horigin : ∀ s ∈ some "sw", NoEscape s := by decide
  have hd : d.NoEscape := ⟨by decide, by decide, by decide, by decide⟩
  have hes : ∀ e ∈ es, e.NoEscape := by
    intro e he
    rcases List.mem_cons.mp he with rfl | he
    · exact hd
    · rw [List.mem_singleton.mp he]
      trivial
  obtain ⟨hstripped, -, hclosed, -⟩ := colors_add_sequences horigin hes
  have hplain : emitAll ⟨.plain, some "sw"⟩ es = plain := by decide +kernel
  exact ⟨horigin, hes, hstripped.trans hplain, hclosed⟩

end Terminal

end WireTypes
