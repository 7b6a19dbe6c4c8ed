import Flowchart.Chart
import Flowchart.Proofs.Lexing
import Flowchart.Proofs.WellFormed

/-! Programs written as source texts. Every well-formed program is what its own text is read as. The
proof goes through the words of the text: scanning the text gives tokens that say these words, and
tokens that say them are derived by the grammar. -/
namespace Flowchart
open Braces Grammar Token

namespace Outline

def escape : List Char → List Char
  | [] => []
  | c :: cs => if c = '\x22' ∨ c = '\\' then '\\' :: c :: escape cs else c :: escape cs

def quoted (text : String) : String := "\x22" ++ String.ofList (escape text.toList) ++ "\x22"

def marks : Shape → String × String
  | .square | .condition => ("", "")
  | .rounded => ("(", ")")
  | .circular => ("((", "))")
  | .parallelogram => ("/", "/")
  | .reverseParallelogram => ("\\", "\\")

/-- In the program itself a brace lets other statements follow a return. -/
def parting : Place → Outline → List Outline → Bool
  | .program, leave, _ :: _ => true
  | _, _, _ => false

mutual
def print : Outline → String
  | box text shape => (marks shape).1 ++ quoted text ++ (marks shape).2 ++ ";"
  | branch text thenPart elsePart =>
    "if (" ++ quoted text ++ ") \x7b\n" ++ printAll .block thenPart ++
      if elsePart.isEmpty then "" else " else \x7b\n" ++ printAll .block elsePart
  | leave => "return;"

/-- One statement a line. A block includes the brace that ends it. -/
def printAll (place : Place) : List Outline → String
  | [] =>
    match place with
    | .program => ""
    | .block => "\x7d"
  | outline :: outlines =>
    outline.print ++ (if parting place outline outlines then " \x7d" else "") ++ "\n" ++
      printAll place outlines
end

end Outline

def Program.print (p : Program) : String := Outline.printAll .program (Node.outlineAll p.nodes)

namespace Outline

def markWords : Shape → List Word × List Word
  | .square | .condition => ([], [])
  | .rounded => ([(.lParen, none)], [(.rParen, none)])
  | .circular => ([(.lParen, none), (.lParen, none)], [(.rParen, none), (.rParen, none)])
  | .parallelogram => ([(.forwardSlash, none)], [(.forwardSlash, none)])
  | .reverseParallelogram => ([(.backwardSlash, none)], [(.backwardSlash, none)])

mutual
def words : Outline → List Word
  | box text shape =>
    (markWords shape).1 ++ (.string, some text) :: (markWords shape).2 ++ [(.semi, none)]
  | branch text thenPart elsePart =>
    [(.ifWord, none), (.lParen, none), (.string, some text), (.rParen, none), (.lBrace, none)] ++
      wordsAll .block thenPart ++
      if elsePart.isEmpty then []
      else [(.elseWord, none), (.lBrace, none)] ++ wordsAll .block elsePart
  | leave => [(.returnWord, none), (.semi, none)]

def wordsAll (place : Place) : List Outline → List Word
  | [] =>
    match place with
    | .program => []
    | .block => [(.rBrace, none)]
  | outline :: outlines =>
    outline.words ++ (if parting place outline outlines then [(.rBrace, none)] else []) ++
      wordsAll place outlines
end

section Scanning

variable {cs : List Char} {said : List Word}

theorem closing?_escape (cs rest : List Char) :
    Literal.closing? '\x22' (escape cs ++ '\x22' :: rest) = some (escape cs).length := by
  induction cs with
  | nil =>
    rw [escape, List.nil_append, Literal.closing?.eq_def]
    rfl
  | cons c cs ih =>
    rw [escape]
    split
    · simp [Literal.closing?, ih]
    next plain =>
      rw [not_or] at plain
      rw [List.cons_append, Literal.closing?.eq_def]
      simp [plain, ih]

theorem unescape_escape (cs : List Char) : Literal.unescape (escape cs) = cs := by
  induction cs with
  | nil => rw [escape, Literal.unescape]
  | cons c cs ih =>
    rw [escape]
    split
    · simp [Literal.unescape, ih]
    next plain =>
      rw [not_or] at plain
      rw [Literal.unescape_cons_of_ne plain.2, ih]

theorem toList_quoted (text : String) :
    (quoted text).toList = '\x22' :: (escape text.toList ++ ['\x22']) := by
  simp [quoted]

theorem reads_quoted (text : String) (h : Reads cs said) :
    Reads ((quoted text).toList ++ cs) ((.string, some text) :: said) := by
  rw [toList_quoted, List.cons_append]
  refine Reads.token (fun start previous rest => ?_) h
  have closed := closing?_escape text.toList (cs ++ rest)
  simp [lexeme, Text.isQuote, closed, unescape_escape]

theorem reads_slash {c : Char} (line : c ≠ '/') (block : c ≠ '*') (h : Reads (c :: cs) said) :
    Reads ('/' :: c :: cs) ((.forwardSlash, none) :: said) := by
  have first : ∀ start previous rest, lexeme start previous '/' ([] ++ (c :: cs ++ rest)) =
      .ok (.token .forwardSlash none, ([] : List Char).length) := by
    intro start previous rest
    exact lexeme_forwardSlash start previous (cs ++ rest) line block
  exact .token first h

theorem reads_box (text : String) (shape : Shape) :
    Reads (box text shape).print.toList (box text shape).words := by
  have semi : Reads [';'] [(.semi, none)] := .mark lexeme_semi .nil
  cases shape with
  | square | condition => simpa [print, words, marks, markWords] using reads_quoted text semi
  | rounded =>
    have label := reads_quoted text (.mark lexeme_rParen semi)
    simpa [print, words, marks, markWords] using Reads.mark lexeme_lParen label
  | circular =>
    have label := reads_quoted text (.mark lexeme_rParen (.mark lexeme_rParen semi))
    have left := Reads.mark lexeme_lParen (.mark lexeme_lParen label)
    simpa [print, words, marks, markWords] using left
  | parallelogram =>
    have label := reads_quoted text (reads_slash (by decide) (by decide) semi)
    rw [toList_quoted, List.cons_append] at label
    have left := reads_slash (by decide) (by decide) label
    simpa [print, words, marks, markWords, toList_quoted] using left
  | reverseParallelogram =>
    have label := reads_quoted text (.mark lexeme_backwardSlash semi)
    simpa [print, words, marks, markWords] using Reads.mark lexeme_backwardSlash label

theorem reads_leave : Reads leave.print.toList leave.words := by
  have semi : Reads [';'] [(.semi, none)] := .mark lexeme_semi .nil
  exact .reserved "return" rfl rfl semi

theorem reads_opening : Reads [' ', '\x7b', '\n'] [(.lBrace, none)] :=
  .gap lexeme_space (.mark lexeme_lBrace (.gap lexeme_newline .nil))

theorem reads_header (text : String) :
    Reads ("if (" ++ quoted text ++ ") \x7b\n").toList
      [(.ifWord, none), (.lParen, none), (.string, some text), (.rParen, none),
       (.lBrace, none)] := by
  have label := reads_quoted text (.mark lexeme_rParen reads_opening)
  have left := Reads.gap lexeme_space (.mark lexeme_lParen label)
  simpa using Reads.reserved "if" rfl rfl left

theorem reads_else : Reads " else \x7b\n".toList [(.elseWord, none), (.lBrace, none)] :=
  .gap lexeme_space (.reserved "else" rfl rfl reads_opening)

theorem reads_cons {place : Place} {outline : Outline} {outlines : List Outline}
    (h : Reads outline.print.toList outline.words)
    (h' : Reads (printAll place outlines).toList (wordsAll place outlines)) :
    Reads (printAll place (outline :: outlines)).toList (wordsAll place (outline :: outlines)) := by
  have line : Reads ('\n' :: (printAll place outlines).toList) (wordsAll place outlines) :=
    .gap lexeme_newline h'
  rw [printAll, wordsAll]
  split
  · have brace := Reads.gap lexeme_space (.mark lexeme_rBrace line)
    simpa using h.append brace
  · simpa using h.append line

theorem reads_printAll (place : Place) (outlines : List Outline) :
    Reads (printAll place outlines).toList (wordsAll place outlines) := by
  induction outlines using partInduction generalizing place with
  | nil =>
    cases place with
    | program => exact .nil
    | block => exact .mark lexeme_rBrace .nil
  | box text shape outlines ih => exact reads_cons (reads_box text shape) (ih place)
  | branch text thenPart elsePart outlines ihThen ihElse ih =>
    refine reads_cons ?_ (ih place)
    have thens := (reads_header text).append (ihThen .block)
    rw [print, words]
    split
    · simpa using thens
    · simpa using thens.append (reads_else.append (ihElse .block))
  | leave outlines ih => exact reads_cons reads_leave (ih place)

end Scanning

section Deriving

variable {place : Place} {tokens : List Token} {outlines : List Outline} {text : String}

theorem spells_of_words {said : List Word} (h : tokens.map spelling = said) :
    Spells (said.map Prod.fst) tokens := by
  rw [← h, Spells, List.map_map]
  rfl

theorem ahead_of_words {said : List Word} (h : tokens.map spelling = said) :
    ahead tokens = said.head?.map Prod.fst := by
  rw [← h, ahead, List.head?_map, Option.map_map]
  rfl

theorem text_of_spelling {token : Token} {kind : Kind} (h : token.spelling = (kind, some text)) :
    token.text = text := by
  rw [Token.text, (Prod.mk.inj h).2]
  rfl

theorem exists_enclosed {left right : Kind}
    (h : tokens.map spelling = [(left, none), (.string, some text), (right, none), (.semi, none)]) :
    ∃ before label behind semi, tokens = [before, label, behind, semi] ∧ label.text = text ∧
      Spells [left, .string, right, .semi] tokens := by
  have spelled := spells_of_words h
  simp only [List.map_eq_cons_iff, List.map_eq_nil_iff] at h
  obtain ⟨before, _, rfl, _, label, _, rfl, said, behind, _, rfl, _, semi, _, rfl, _, rfl⟩ := h
  exact ⟨before, label, behind, semi, rfl, text_of_spelling said, spelled⟩

theorem box_of_words {shape : Shape} {behind : Option Kind} (plain : shape ≠ .condition)
    (h : tokens.map spelling = (box text shape).words) : Draws behind tokens text shape := by
  cases shape with
  | condition => exact absurd rfl plain
  | square =>
    have spelled := spells_of_words h
    simp only [words, markWords, List.cons_append, List.nil_append, List.map_eq_cons_iff,
      List.map_eq_nil_iff] at h
    obtain ⟨label, _, rfl, said, semi, _, rfl, _, rfl⟩ := h
    exact text_of_spelling said ▸ .square spelled
  | rounded =>
    obtain ⟨_, _, _, _, rfl, rfl, spelled⟩ := exists_enclosed h
    exact .rounded spelled
  | circular =>
    have spelled := spells_of_words h
    simp only [words, markWords, List.cons_append, List.nil_append, List.map_eq_cons_iff,
      List.map_eq_nil_iff] at h
    obtain ⟨_, _, rfl, _, _, _, rfl, _, label, _, rfl, said, _, _, rfl, _, _, _, rfl, _, _, _, rfl,
      _, rfl⟩ := h
    exact text_of_spelling said ▸ .circular spelled
  | parallelogram =>
    obtain ⟨_, _, _, _, rfl, rfl, spelled⟩ := exists_enclosed h
    exact .parallelogram spelled
  | reverseParallelogram =>
    obtain ⟨_, _, _, _, rfl, rfl, spelled⟩ := exists_enclosed h
    exact .reverseParallelogram spelled

theorem header_of_words (h : tokens.map spelling = [(.ifWord, none), (.lParen, none),
      (.string, some text), (.rParen, none), (.lBrace, none)]) : Header tokens text := by
  have spelled := spells_of_words h
  simp only [List.map_eq_cons_iff, List.map_eq_nil_iff] at h
  obtain ⟨_, _, rfl, _, _, _, rfl, _, label, _, rfl, said, _, _, rfl, _, _, _, rfl, _, rfl⟩ := h
  exact text_of_spelling said ▸ .mk spelled

theorem ahead_ne_of_words (h : tokens.map spelling = wordsAll place outlines) :
    ahead tokens ≠ some .comment ∧ ahead tokens ≠ some .elseWord := by
  rw [ahead_of_words h]
  cases outlines with
  | nil => cases place <;> simp [wordsAll]
  | cons outline outlines =>
    cases outline with
    | box text shape => cases shape <;> simp [wordsAll, words, markWords]
    | branch => simp [wordsAll, words]
    | leave => simp [wordsAll, words]

theorem spells_one {kind : Kind} {value : Option String}
    (h : tokens.map spelling = [(kind, value)]) :
    ∃ token, tokens = [token] ∧ Spells [kind] [token] := by
  obtain ⟨token, rfl, _⟩ := List.map_eq_singleton_iff.1 h
  exact ⟨token, rfl, spells_of_words h⟩

theorem spells_two {kind kind' : Kind} {value value' : Option String}
    (h : tokens.map spelling = [(kind, value), (kind', value')]) :
    ∃ token token', tokens = [token, token'] ∧ Spells [kind, kind'] [token, token'] := by
  have spelled := spells_of_words h
  simp only [List.map_eq_cons_iff, List.map_eq_nil_iff] at h
  obtain ⟨token, _, rfl, _, token', _, rfl, _, rfl⟩ := h
  exact ⟨token, token', rfl, spelled⟩

theorem exists_box_of_words {shape : Shape}
    (h : tokens.map spelling = wordsAll place (box text shape :: outlines)) :
    ∃ front rest, tokens = front ++ rest ∧ front.map spelling = (box text shape).words ∧
      rest.map spelling = wordsAll place outlines := by
  have parts : wordsAll place (box text shape :: outlines) =
      (box text shape).words ++ wordsAll place outlines := by
    simp [wordsAll, parting]
  exact List.map_eq_append_iff.1 (h.trans parts)

theorem exists_branch_of_words {thenPart elsePart : List Outline}
    (h : tokens.map spelling = wordsAll place (branch text thenPart elsePart :: outlines)) :
    ∃ header inner other rest, tokens = header ++ (inner ++ (other ++ rest)) ∧
      Header header text ∧ inner.map spelling = wordsAll .block thenPart ∧
      other.map spelling = (if elsePart.isEmpty then [] else
        [(.elseWord, none), (.lBrace, none)] ++ wordsAll .block elsePart) ∧
      rest.map spelling = wordsAll place outlines := by
  simp only [wordsAll, words, parting, List.append_assoc, Bool.false_eq_true, ite_false,
    List.nil_append] at h
  obtain ⟨header, behind, rfl, front, h1⟩ := List.map_eq_append_iff.1 h
  obtain ⟨inner, behind, rfl, thens, h2⟩ := List.map_eq_append_iff.1 h1
  obtain ⟨other, rest, rfl, elses, after⟩ := List.map_eq_append_iff.1 h2
  exact ⟨header, inner, other, rest, rfl, header_of_words front, thens, elses, after⟩

theorem exists_leave_of_words (h : tokens.map spelling = wordsAll place (leave :: outlines)) :
    ∃ word semi other rest, tokens = word :: semi :: (other ++ rest) ∧
      Spells [.returnWord, .semi] [word, semi] ∧
      other.map spelling = (if parting place leave outlines then [(.rBrace, none)] else []) ∧
      rest.map spelling = wordsAll place outlines := by
  simp only [wordsAll, words, List.append_assoc] at h
  obtain ⟨front, behind, rfl, returns, h1⟩ := List.map_eq_append_iff.1 h
  obtain ⟨other, rest, rfl, closes, after⟩ := List.map_eq_append_iff.1 h1
  obtain ⟨word, semi, rfl, spelled⟩ := spells_two returns
  exact ⟨word, semi, other, rest, rfl, spelled, closes, after⟩

/-- Tokens that say the words of well-formed statements are derived as these statements. -/
theorem statements_of_words (formed : AllWellFormed outlines)
    (last : place = .block → leave ∉ outlines.dropLast)
    (h : tokens.map spelling = wordsAll place outlines) : Statements place tokens outlines := by
  induction outlines using partInduction generalizing place tokens with
  | nil =>
    cases place with
    | program =>
      obtain rfl := List.map_eq_nil_iff.1 h
      exact .nil
    | block =>
      obtain ⟨brace, rfl, spelled⟩ := spells_one h
      exact .close spelled
  | box text shape outlines ih =>
    rw [leave_mem_dropLast_cons (by simp)] at last
    obtain ⟨front, rest, rfl, drawn, after⟩ := exists_box_of_words h
    exact .box (box_of_words formed.1 drawn) (ih formed.2 last after)
  | branch text thenPart elsePart outlines ihThen ihElse ih =>
    rw [leave_mem_dropLast_cons (by simp)] at last
    obtain ⟨⟨⟨thenLast, thenFormed⟩, elseLast, elseFormed⟩, restFormed⟩ := formed
    obtain ⟨header, inner, other, rest, rfl, headed, thenSaid, elseSaid, after⟩ :=
      exists_branch_of_words h
    have thens := ihThen thenFormed (fun _ => thenLast) thenSaid
    have behind := ih restFormed last after
    -- There are no comments between the branches.
    have remarks : ∀ remark ∈ ([] : List Token), remark.kind = .comment := by simp
    cases elsePart with
    | nil =>
      obtain rfl := List.map_eq_nil_iff.1 elseSaid
      have other := ahead_ne_of_words after
      exact .condition headed thens remarks other.1 other.2 behind
    | cons first elsePart =>
      obtain ⟨opening, inner', rfl, opened, innerSaid⟩ := List.map_eq_append_iff.1 elseSaid
      obtain ⟨word, brace, rfl, spelled⟩ := spells_two opened
      have elses := ihElse elseFormed (fun _ => elseLast) innerSaid
      have derived := Statements.conditionElse headed thens remarks spelled elses behind
      simpa using derived
  | leave outlines ih =>
    obtain ⟨word, semi, other, rest, rfl, spelled, closes, after⟩ := exists_leave_of_words h
    cases place with
    | block =>
      have alone : outlines = [] := by
        cases outlines with
        | nil => rfl
        | cons first outlines => exact absurd (last rfl) (by simp)
      subst alone
      obtain rfl := List.map_eq_nil_iff.1 closes
      obtain ⟨brace, rfl, ends⟩ := spells_one after
      exact .leaveBlock spelled balanced_nil ends
    | program =>
      have behind := ih formed.2 (by simp) after
      cases outlines with
      | nil =>
        obtain rfl := List.map_eq_nil_iff.1 closes
        obtain rfl := List.map_eq_nil_iff.1 after
        exact .leaveLast spelled sealed_nil
      | cons first outlines =>
        obtain ⟨brace, rfl, ends⟩ := spells_one closes
        exact .leave spelled balanced_nil ends behind

end Deriving

end Outline

namespace Program

theorem exists_tokenize_print (p : Program) :
    ∃ tokens, tokenize p.print = .ok tokens ∧
      tokens.map spelling = Outline.wordsAll .program (Node.outlineAll p.nodes) := by
  obtain ⟨s, tokens, run, added, said⟩ :=
    Outline.reads_printAll .program (Node.outlineAll p.nodes) {} []
  refine ⟨tokens, ?_, said⟩
  rw [tokenize, print, ← List.append_nil (String.toList _), run, Scan.run_nil, added]
  simp

example : print ⟨0, .topDown, [.leave 1, .condition 2 "a" 3 [.expression 5 "\x22" .circular] 4 []]⟩ =
    "return; \x7d\nif (\x22a\x22) \x7b\n((\x22\\\x22\x22));\n\x7d\n" := by decide

theorem WellFormed.allWellFormed {p : Program} (h : p.WellFormed) :
    Outline.AllWellFormed (Node.outlineAll p.nodes) := by
  rw [Node.allWellFormed_outlineAll]
  refine ⟨h.plain _ List.mem_cons_self, fun block member => ?_⟩
  exact ⟨h.plain block (List.mem_cons_of_mem _ member), h.leavesLast block member⟩

theorem WellFormed.size_le {p : Program} (h : p.WellFormed) : p.size ≤ UInt32.size := by
  apply Nat.le_of_not_lt
  intro large
  have member : UInt32.size ∈ p.ids.map UInt32.toNat := by
    rw [h.ids_eq]
    exact List.mem_range.2 large
  obtain ⟨id, _, same⟩ := List.mem_map.1 member
  have bound := id.toNat_lt
  simp only [UInt32.size] at same
  omega

theorem WellFormed.nodes_eq {p : Program} (h : p.WellFormed) :
    p.nodes = Outline.numberAll 1 (Node.outlineAll p.nodes) := by
  have numbers : p.ids = NodeId.series 0 p.size := by
    have same : p.ids.map UInt32.toNat = (NodeId.series 0 p.size).map UInt32.toNat := by
      rw [h.ids_eq, NodeId.map_toNat_series h.size_le]
    exact (List.map_inj_right fun _ _ => UInt32.toNat_inj.1).1 same
  apply Node.eq_numberAll_of_idsAll
  rw [ids, size, NodeId.series_add, NodeId.series_one] at numbers
  exact (List.cons.inj numbers).2

theorem ofSource_print {p : Program} {settings : Settings} (h : p.WellFormed)
    (same : settings.direction = p.direction) : ofSource settings p.print = .ok p := by
  obtain ⟨tokens, scanned, said⟩ := exists_tokenize_print p
  have derived : Derives tokens (Node.outlineAll p.nodes) :=
    Outline.statements_of_words h.allWellFormed (by simp) said
  have whole : p = ⟨0, settings.direction, Outline.numberAll 1 (Node.outlineAll p.nodes)⟩ := by
    rw [same, ← h.nodes_eq, ← h.id_eq]
  have read : ofTokens settings.direction tokens = .ok p :=
    ofTokens_eq_ok_iff.2 ⟨Node.outlineAll p.nodes, derived, whole⟩
  rw [ofSource, scanned]
  exact read

def quotations : Program where
  direction := .leftRight
  nodes :=
    [.condition 1 "say \x22no\x22\\" 2 [.expression 4 "// a" .parallelogram, .leave 5]
       3 [.expression 6 "if" .circular, .expression 7 "\\" .reverseParallelogram],
     .leave 8,
     .expression 9 "" .rounded]

theorem ofSource_print_quotations :
    quotations.WellFormed ∧
      ofSource { direction := .leftRight } quotations.print = .ok quotations := by
  have formed : quotations.WellFormed := by
    refine ⟨rfl, by decide, ?_, ?_⟩
    · grind [quotations, Node.branchesAll, Node.branches, Node.Plain]
    · simp [quotations, Node.branchesAll, Node.branches, Node.LeavesLast, Node.isLeave]
  exact ⟨formed, ofSource_print formed rfl⟩

end Program

end Flowchart
