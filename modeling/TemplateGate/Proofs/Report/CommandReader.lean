/-
# `Proofs.Report.CommandReader` — reading back the lines of annotations

A build service reads a command from its line: it strips `::error `, cuts
at the first `::`, cuts what stands before it at commas, cuts each piece
at its first `=`, and undoes the percent escapes in one pass from left to
right.  `WorkflowCommand.read?` is that reader.  It shares nothing with
the printer but the alphabet of the escapes, and it is as lenient as the
grammar: a percent sign that starts no escape stands for itself.

Two things make the reader an inverse.  Escaping a character either leaves
it alone, in which case it is no percent sign, or writes an escape that
stands for it (`Undoes`), so that a pass from left to right never loses
step.  And the escaped text holds none of the separators, so that every
cut falls where the printer put it.

The main statement, `annotationLines_read_back`, says so of the lines of a
report, for every text in it.
-/
import Mathlib.Data.List.Forall2
import TemplateGate.Proofs.Text.Scan
import TemplateGate.Report.WorkflowCommand

namespace TemplateGate

open Text

namespace WorkflowCommand

/-! ## The reader -/

/-- The character that a percent sign and two digits stand for in a message. -/
def messageEscape? : Char → Char → Option Char
  | '2', '5' => some '%'
  | '0', 'D' => some '\r'
  | '0', 'A' => some '\n'
  | _, _ => none

/-- The character that a percent sign and two digits stand for in a property. -/
def propertyEscape? : Char → Char → Option Char
  | '3', 'A' => some ':'
  | '2', 'C' => some ','
  | a, b => messageEscape? a b

/-- Undo the escapes of a text in one pass. -/
def unescape (escape? : Char → Char → Option Char) : List Char → List Char
  | '%' :: a :: b :: rest =>
      match escape? a b with
      | some c => c :: unescape escape? rest
      | none => '%' :: unescape escape? (a :: b :: rest)
  | c :: rest => c :: unescape escape? rest
  | [] => []

/-- What stands before and after the first `::` of a text. -/
def splitAtColons? : List Char → Option (List Char × List Char)
  | ':' :: ':' :: rest => some ([], rest)
  | c :: rest => (splitAtColons? rest).map fun (before, after) => (c :: before, after)
  | [] => none

/-- The name and the value of a property, cut at the first `=`. -/
def readProperty? (cs : List Char) : Option (String × String) :=
  match cs.span (· ≠ '=') with
  | (name, '=' :: value) =>
      some (String.ofList name, String.ofList (unescape propertyEscape? value))
  | _ => none

/-- The properties, in order, and the message of an error command. -/
def read? (line : String) : Option (List (String × String) × String) := do
  let command ← line.toList.dropPrefix? "::error ".toList
  let (before, message) ← splitAtColons? command
  let properties ← (before.splitOn ',').mapM readProperty?
  pure (properties, String.ofList (unescape messageEscape? message))

/-! ## One character -/

/-- Every character is written as itself or as an escape that stands for
it, and a percent sign never as itself. -/
def Undoes (escape? : Char → Char → Option Char) (escape : Char → List Char) : Prop :=
  ∀ c, (c ≠ '%' ∧ escape c = [c]) ∨ ∃ a b, escape c = ['%', a, b] ∧ escape? a b = some c

theorem undoes_escapeMessageChar : Undoes messageEscape? escapeMessageChar := by
  intro c
  rw [escapeMessageChar]
  split
  case isTrue h => exact .inr ⟨'2', '5', rfl, by rw [h]; rfl⟩
  case isFalse hpercent =>
      split
      case isTrue h => exact .inr ⟨'0', 'D', rfl, by rw [h]; rfl⟩
      case isFalse =>
          split
          case isTrue h => exact .inr ⟨'0', 'A', rfl, by rw [h]; rfl⟩
          case isFalse => exact .inl ⟨hpercent, rfl⟩

theorem propertyEscape?_of_messageEscape? {a b c : Char} (h : messageEscape? a b = some c) :
    propertyEscape? a b = some c := by
  unfold messageEscape? at h
  split at h
  · exact h
  · exact h
  · exact h
  · cases h

theorem undoes_escapePropertyChar : Undoes propertyEscape? escapePropertyChar := by
  intro c
  rw [escapePropertyChar]
  split
  case isTrue h => exact .inr ⟨'3', 'A', rfl, by rw [h]; rfl⟩
  case isFalse =>
      split
      case isTrue h => exact .inr ⟨'2', 'C', rfl, by rw [h]; rfl⟩
      case isFalse =>
          rcases undoes_escapeMessageChar c with hself | ⟨a, b, hescape, hmeans⟩
          · exact .inl hself
          · exact .inr ⟨a, b, hescape, propertyEscape?_of_messageEscape? hmeans⟩

theorem ne_of_mem_escapeMessageChar {c d : Char} (h : d ∈ escapeMessageChar c) :
    d ≠ '\r' ∧ d ≠ '\n' := by
  rw [escapeMessageChar] at h
  split at h
  · constructor <;> (rintro rfl; simp at h)
  split at h
  · constructor <;> (rintro rfl; simp at h)
  split at h
  · constructor <;> (rintro rfl; simp at h)
  next hcr hlf =>
      rw [List.mem_singleton] at h
      exact ⟨h ▸ hcr, h ▸ hlf⟩

/-- A character of an escaped property ends no line, no property and not the properties. -/
theorem ne_of_mem_escapePropertyChar {c d : Char} (h : d ∈ escapePropertyChar c) :
    d ≠ '\r' ∧ d ≠ '\n' ∧ d ≠ ':' ∧ d ≠ ',' := by
  rw [escapePropertyChar] at h
  split at h
  · refine ⟨?_, ?_, ?_, ?_⟩ <;> (rintro rfl; simp at h)
  split at h
  · refine ⟨?_, ?_, ?_, ?_⟩ <;> (rintro rfl; simp at h)
  next hcolon hcomma =>
      have ⟨hcr, hlf⟩ := ne_of_mem_escapeMessageChar h
      refine ⟨hcr, hlf, ?_, ?_⟩
      -- A colon or a comma would have to be the character itself, or stand in an escape.
      all_goals
        rintro rfl
        rw [escapeMessageChar] at h
        split at h
        · simp at h
        split at h
        · simp at h
        split at h
        · simp at h
        exact absurd (List.mem_singleton.mp h).symm ‹_›

/-! ## Whole texts -/

theorem unescape_cons {escape? : Char → Char → Option Char} {c : Char} (h : c ≠ '%')
    (rest : List Char) : unescape escape? (c :: rest) = c :: unescape escape? rest := by
  rw [unescape]
  exact fun _ _ _ hc => absurd hc h

theorem unescape_escape {escape? : Char → Char → Option Char} {a b c : Char}
    (h : escape? a b = some c) (rest : List Char) :
    unescape escape? ('%' :: a :: b :: rest) = c :: unescape escape? rest := by
  rw [unescape, h]

theorem unescape_flatMap {escape? : Char → Char → Option Char} {escape : Char → List Char}
    (h : Undoes escape? escape) (cs : List Char) :
    unescape escape? (cs.flatMap escape) = cs := by
  induction cs with
  | nil => rfl
  | cons c cs ih =>
      rw [List.flatMap_cons]
      rcases h c with ⟨hne, hself⟩ | ⟨a, b, hescape, hmeans⟩
      · rw [hself, List.singleton_append, unescape_cons hne, ih]
      · rw [hescape]
        exact (unescape_escape hmeans _).trans (congrArg (c :: ·) ih)

/-- Replace a character throughout a text. -/
def replaceChar (c : Char) (text : List Char) (cs : List Char) : List Char :=
  cs.flatMap fun d => if d = c then text else [d]

/-- Escaping character by character is replacing through the whole text,
one character after the other, if the percent sign comes first. -/
theorem flatMap_escapeMessageChar (cs : List Char) :
    cs.flatMap escapeMessageChar =
      replaceChar '\n' ['%', '0', 'A'] (replaceChar '\r' ['%', '0', 'D']
        (replaceChar '%' ['%', '2', '5'] cs)) := by
  simp only [replaceChar, List.flatMap_assoc]
  congr 1
  funext c
  rw [escapeMessageChar]
  by_cases hpercent : c = '%'
  · subst hpercent; rfl
  by_cases hcr : c = '\r'
  · subst hcr; rfl
  by_cases hlf : c = '\n'
  · subst hlf; rfl
  simp [hpercent, hcr, hlf]

theorem flatMap_escapePropertyChar (cs : List Char) :
    cs.flatMap escapePropertyChar =
      replaceChar ',' ['%', '2', 'C'] (replaceChar ':' ['%', '3', 'A']
        (cs.flatMap escapeMessageChar)) := by
  simp only [replaceChar, List.flatMap_assoc]
  congr 1
  funext c
  rw [escapePropertyChar, escapeMessageChar]
  by_cases hcolon : c = ':'
  · subst hcolon; rfl
  by_cases hcomma : c = ','
  · subst hcomma; rfl
  by_cases hpercent : c = '%'
  · subst hpercent; rfl
  by_cases hcr : c = '\r'
  · subst hcr; rfl
  by_cases hlf : c = '\n'
  · subst hlf; rfl
  simp [hcolon, hcomma, hpercent, hcr, hlf]

/-! ## One line -/

/-- The first pair of colons is the one that follows a text without colons. -/
theorem splitAtColons?_append {before : List Char} (h : ':' ∉ before) (after : List Char) :
    splitAtColons? (before ++ ':' :: ':' :: after) = some (before, after) := by
  induction before with
  | nil => rfl
  | cons c before ih =>
      have hc : c ≠ ':' := fun heq => h (heq ▸ List.mem_cons_self)
      have hrest : ':' ∉ before := fun hmem => h (List.mem_cons_of_mem c hmem)
      rw [List.cons_append, splitAtColons?, ih hrest]
      · rfl
      · exact fun _ heq => absurd heq hc

theorem toList_printProperty (p : String × String) :
    (printProperty p).toList = p.1.toList ++ '=' :: p.2.toList.flatMap escapePropertyChar := by
  simp [printProperty, escapeProperty]

theorem readProperty?_printProperty {p : String × String} (h : '=' ∉ p.1.toList) :
    readProperty? (printProperty p).toList = some p := by
  have hall : ∀ c ∈ p.1.toList, decide (c ≠ '=') = true := fun c hc =>
    decide_eq_true fun heq => h (heq ▸ hc)
  rw [readProperty?]
  rw [toList_printProperty, span_append hall (stops_cons.mpr rfl)]
  simp [unescape_flatMap undoes_escapePropertyChar]

theorem name_of_mem_properties {a : WorkflowCommand} {p : String × String}
    (h : p ∈ a.properties) : p.1 = "file" ∨ p.1 = "title" := by
  rw [properties] at h
  rcases List.mem_append.mp h with h | h
  · obtain ⟨f, _, rfl⟩ : ∃ f, a.file = some f ∧ ("file", f) = p := by simpa using h
    exact .inl rfl
  · rw [List.mem_singleton.mp h]
    exact .inr rfl

theorem ne_of_mem_printProperty {a : WorkflowCommand} {p : String × String}
    (h : p ∈ a.properties) {d : Char} (hd : d ∈ (printProperty p).toList) :
    d ≠ '\r' ∧ d ≠ '\n' ∧ d ≠ ':' ∧ d ≠ ',' := by
  rw [toList_printProperty, List.mem_append, List.mem_cons, List.mem_flatMap] at hd
  rcases hd with hname | rfl | ⟨c, _, hc⟩
  · have hnames : (("file".toList ++ "title".toList).all fun d =>
        decide (d ≠ '\r' ∧ d ≠ '\n' ∧ d ≠ ':' ∧ d ≠ ',')) = true := by decide
    refine of_decide_eq_true (List.all_eq_true.mp hnames d (List.mem_append.mpr ?_))
    rcases name_of_mem_properties h with heq | heq
    · exact .inl (heq ▸ hname)
    · exact .inr (heq ▸ hname)
  · decide
  · exact ne_of_mem_escapePropertyChar hc

/-- What stands before the colons of a line. -/
def head (a : WorkflowCommand) : List Char :=
  [','].intercalate (a.properties.map fun p => (printProperty p).toList)

theorem toList_line (a : WorkflowCommand) :
    a.line.toList = "::error ".toList ++
      (a.head ++ ':' :: ':' :: a.message.toList.flatMap escapeMessageChar) := by
  simp [line, head, escapeMessage, Function.comp_def]

theorem mem_intercalate {x d : Char} : ∀ {ls : List (List Char)}, d ∈ [x].intercalate ls →
    d = x ∨ ∃ l ∈ ls, d ∈ l
  | [], h => absurd h (by simp)
  | [l], h => .inr ⟨l, List.mem_singleton_self l, by simpa using h⟩
  | l :: l' :: ls, h => by
      rw [List.intercalate_cons_cons, List.mem_append, List.mem_append] at h
      rcases h with (h | h) | h
      · exact .inr ⟨l, List.mem_cons_self, h⟩
      · exact .inl (List.mem_singleton.mp h)
      · rcases mem_intercalate h with h | ⟨m, hm, hd⟩
        · exact .inl h
        · exact .inr ⟨m, List.mem_cons_of_mem l hm, hd⟩

theorem ne_of_mem_head {a : WorkflowCommand} {d : Char} (h : d ∈ a.head) :
    d ≠ '\r' ∧ d ≠ '\n' ∧ d ≠ ':' := by
  rcases mem_intercalate h with rfl | ⟨l, hl, hd⟩
  · decide
  · obtain ⟨p, hp, rfl⟩ := List.mem_map.mp hl
    have ⟨hcr, hlf, hcolon, _⟩ := ne_of_mem_printProperty hp hd
    exact ⟨hcr, hlf, hcolon⟩

theorem ne_of_mem_line {a : WorkflowCommand} {d : Char} (h : d ∈ a.line.toList) :
    d ≠ '\r' ∧ d ≠ '\n' := by
  rw [toList_line, List.mem_append, List.mem_append, List.mem_cons, List.mem_cons,
    List.mem_flatMap] at h
  rcases h with hfront | hhead | rfl | rfl | ⟨c, _, hc⟩
  · have hfronts : ("::error ".toList.all fun d => decide (d ≠ '\r' ∧ d ≠ '\n')) = true := by
      decide
    exact of_decide_eq_true (List.all_eq_true.mp hfronts d hfront)
  · have ⟨hcr, hlf, _⟩ := ne_of_mem_head hhead
    exact ⟨hcr, hlf⟩
  · decide
  · decide
  · exact ne_of_mem_escapeMessageChar hc

theorem mapM_readProperty? {ps : List (String × String)} (h : ∀ p ∈ ps, '=' ∉ p.1.toList) :
    (ps.map fun p => (printProperty p).toList).mapM readProperty? = some ps := by
  induction ps with
  | nil => rfl
  | cons p ps ih =>
      rw [List.map_cons, List.mapM_cons, readProperty?_printProperty (h p List.mem_cons_self),
        ih fun q hq => h q (List.mem_cons_of_mem p hq)]
      rfl

theorem mapM_readProperty?_head (a : WorkflowCommand) :
    (a.head.splitOn ',').mapM readProperty? = some a.properties := by
  have hpieces : ∀ l ∈ a.properties.map fun p => (printProperty p).toList, ',' ∉ l := by
    intro l hl hmem
    obtain ⟨p, hp, rfl⟩ := List.mem_map.mp hl
    exact (ne_of_mem_printProperty hp hmem).2.2.2 rfl
  have hne : (a.properties.map fun p => (printProperty p).toList) ≠ [] := by
    simp [properties]
  have hnames : ∀ p ∈ a.properties, '=' ∉ p.1.toList := by
    intro p hp
    rcases name_of_mem_properties hp with heq | heq <;> rw [heq] <;> decide
  rw [head, List.splitOn_intercalate ',' hpieces hne, mapM_readProperty? hnames]

/-- A line is read back as what it was made of. -/
theorem read?_line (a : WorkflowCommand) : read? a.line = some (a.properties, a.message) := by
  have hcolon : ':' ∉ a.head := fun h => (ne_of_mem_head h).2.2 rfl
  have hdrop : a.line.toList.dropPrefix? "::error ".toList =
      some (a.head ++ ':' :: ':' :: a.message.toList.flatMap escapeMessageChar) := by
    rw [toList_line]
    exact List.dropPrefix?_append_of_beq _ (beq_self_eq_true _)
  rw [read?]
  rw [hdrop]
  simp only [Option.bind_eq_bind, Option.bind_some, splitAtColons?_append hcolon,
    mapM_readProperty?_head, unescape_flatMap undoes_escapeMessageChar, String.ofList_toList]
  rfl

end WorkflowCommand

namespace Report

/-! ## The lines of a report -/

/-- The annotations of a report read back as the findings they were made
of.  There is one line per finding, in the order of the findings; a line
is one line, so that it holds no second command; and it is read as the
file, if the report has one, and the check of the finding, with the code,
the message and the resource of the finding as its message.  A cap keeps
the first lines. -/
theorem annotationLines_read_back (r : Report) :
    List.Forall₂ (fun f line => '\r' ∉ line.toList ∧ '\n' ∉ line.toList ∧
        WorkflowCommand.read? line = some
          ((r.data.template.map fun template => ("file", template)).toList ++
              [("title", f.checkId)],
            "[" ++ f.code ++ "] " ++ f.message ++
              f.resource.elim "" fun ref => " (" ++ ref.type ++ " '" ++ ref.name ++ "')"))
      r.findings (r.annotationLines none) ∧
    ∀ most, r.annotationLines (some most) =
      (r.annotationLines none).take (min most r.findings.length) := by
  have hlength : (r.annotationLines none).length = r.findings.length := by
    simp [annotationLines, annotations]
  constructor
  · rw [annotationLines, annotations]
    rw [List.map_map, List.forall₂_map_right_iff, List.forall₂_same]
    intro f _
    exact ⟨fun h => (WorkflowCommand.ne_of_mem_line h).1 rfl,
      fun h => (WorkflowCommand.ne_of_mem_line h).2 rfl, WorkflowCommand.read?_line _⟩
  · intro most
    rw [← hlength, ← List.take_eq_take_min]
    rfl

end Report

end TemplateGate
