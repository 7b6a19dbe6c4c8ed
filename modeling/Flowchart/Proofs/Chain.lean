import Flowchart.Proofs.Appearance
import Flowchart.Proofs.Printing
import Flowchart.Proofs.Spelling

/-! Programs without branches. Bare texts with semicolons behind them, and any white space before them,
are drawn as a chain: a square box for each text, numbered from one on, and a link from each box to the
next one. A text may hold anything but a semicolon, if it begins with a letter or a digit and not with a
reserved word that ends there. -/
namespace Flowchart

/-- A text that is read as it stands, up to the semicolon behind it. -/
structure Bare (text : String) : Prop where
  begins : ∃ c cs, text.toList = c :: cs ∧ c.isAlphanum = true
  single : ';' ∉ text.toList
  unreserved : ∀ kind word after, (kind, word) ∈ Token.reservedWords →
    text.toList ++ [';'] = word.toList ++ after → kind.endsBefore after.head? = false

theorem bare_iff {text : String} :
    Bare text ↔ text.toList.head?.any Char.isAlphanum = true ∧ ';' ∉ text.toList ∧
      ∀ entry ∈ Token.reservedWords, entry.2.toList <+: text.toList ++ [';'] →
        entry.1.endsBefore ((text.toList ++ [';']).drop entry.2.toList.length).head? = false := by
  constructor
  · rintro ⟨⟨c, cs, spelled, letter⟩, single, unreserved⟩
    refine ⟨by simp [spelled, letter], single, ?_⟩
    rintro ⟨kind, word⟩ member ⟨after, split⟩
    rw [← split, List.drop_left]
    exact unreserved kind word after member split.symm
  · rintro ⟨begins, single, unreserved⟩
    refine ⟨?_, single, fun kind word after member split => ?_⟩
    · cases spelled : text.toList with
      | nil => simp [spelled] at begins
      | cons c cs => exact ⟨c, cs, rfl, by simpa [spelled] using begins⟩
    · have ends := unreserved (kind, word) member ⟨after, split.symm⟩
      rwa [split, List.drop_left] at ends

instance (text : String) : Decidable (Bare text) := decidable_of_iff _ bare_iff.symm

def chainSource (phrases : List (String × String)) : String :=
  String.join (phrases.map fun phrase => phrase.1 ++ phrase.2 ++ ";")

def chainChart (settings : Settings) (texts : List String) : String :=
  "flowchart " ++ settings.direction.name ++ ";\n" ++
  String.join (texts.mapIdx fun i text =>
    "  " ++ toString (i + 1) ++ "[\x22" ++ text ++ "\x22]" ++ settings.theme.classSuffix .square ++
      "\n") ++
  String.join ((List.range (texts.length - 1)).map fun i =>
    "  " ++ toString (i + 1) ++ "-->" ++ toString (i + 2) ++ "\n") ++
  (if texts.length = 0 then "" else (settings.theme.classLine? .square).getD "") ++
  (if texts.length ≤ 1 then "" else settings.theme.linkLine?.getD "")

def chainOutlines (texts : List String) : List Outline := texts.map (.box · .square)

namespace Token

section Scanning

variable {c : Char} {cs gap : List Char} {text : String} {s : Scan}

theorem word_eq_string (seen : Text.Buffer) (rest : List Char) (single : ';' ∉ cs)
    (unreserved : ∀ kind word after, (kind, word) ∈ reservedWords →
      seen.text.toList ++ (cs ++ [';']) = word.toList ++ after → kind.endsBefore after.head? = false) :
    (Literal.word none seen (cs ++ ';' :: rest)).1 = .string ∧
      (Literal.word none seen (cs ++ ';' :: rest)).2.length = seen.length + cs.length := by
  induction cs generalizing seen with
  | nil => simp [Literal.word]
  | cons c cs ih =>
    obtain ⟨other, single⟩ := not_or.1 (List.mem_cons.not.1 single)
    have inner : ¬ (c = ';' ∨ none = some c) := by simpa [eq_comm] using other
    have split : seen.text.toList ++ (c :: cs ++ [';']) =
        (seen.push c).text.toList ++ (cs ++ [';']) := by
      rw [Text.Buffer.toList_push]
      simp
    have next := ih (seen.push c) single (by rwa [← split])
    rw [Text.Buffer.length_push] at next
    have length : seen.length + 1 + cs.length = seen.length + (c :: cs).length := by
      rw [List.length_cons]
      omega
    rw [List.cons_append, Literal.word, if_neg inner, ← length]
    split
    next kind reserved =>
      have head : (cs ++ ';' :: rest).head? = (cs ++ [';']).head? := by cases cs <;> rfl
      have goes : kind.endsBefore (cs ++ ';' :: rest).head? = false := by
        rw [head]
        exact unreserved kind _ _ (mem_reservedWords reserved) split
      rwa [goes, if_neg Bool.false_ne_true]
    next => exact next

theorem lexeme_bare (start : Cursor) (rest : List Char) {previous : Option Kind}
    (closed : previous.bind Kind.closer? = none) (bare : Bare text)
    (spelled : text.toList = c :: cs) :
    lexeme start previous c (cs ++ ';' :: rest) = .ok (.token .string (some text), cs.length) := by
  have first : (Text.Buffer.empty.push c).text.toList = [c] := by
    rw [Text.Buffer.toList_push]
    rfl
  have one : (Text.Buffer.empty.push c).length = 1 := rfl
  have letter : c.isAlphanum = true := by
    obtain ⟨d, ds, same, letter⟩ := bare.begins
    rw [spelled] at same
    rwa [(List.cons.inj same).1]
  have single : ';' ∉ cs := fun member => bare.single (spelled ▸ List.mem_cons_of_mem c member)
  have whole : (Text.Buffer.empty.push c).text.toList ++ (cs ++ [';']) = text.toList ++ [';'] := by
    rw [first, spelled]
    rfl
  obtain ⟨kind, length⟩ := word_eq_string (Text.Buffer.empty.push c) rest single
    (whole ▸ bare.unreserved)
  have taken := Literal.text_word none (Text.Buffer.empty.push c) (cs ++ ';' :: rest)
  rw [length, first, one, Nat.add_sub_cancel_left, List.take_left] at taken
  have said : (Literal.word none (Text.Buffer.empty.push c) (cs ++ ';' :: rest)).2.text = text := by
    rw [← String.toList_inj, taken, spelled]
    rfl
  rw [lexeme_of_isAlphanum start previous letter rfl, closed, kind, length, said, one,
    Nat.add_sub_cancel_left, if_pos rfl]

theorem reads_gap (blank : ∀ c ∈ gap, Text.isGap c = true) : Reads gap [] := by
  induction gap with
  | nil => exact .nil
  | cons c gap ih =>
    rw [List.forall_mem_cons] at blank
    exact .gap (fun start previous rest => lexeme_of_isGap start previous rest blank.1) (ih blank.2)

theorem run_phrase (rest : List Char) (closed : s.previous.bind Kind.closer? = none)
    (blank : ∀ c ∈ gap, Text.isGap c = true) (bare : Bare text) :
    ∃ (s' : Scan) (word semi : Token), s.run (gap ++ (text.toList ++ ';' :: rest)) = s'.run rest ∧
      s'.tokens = semi :: word :: s.tokens ∧ word.spelling = (.string, some text) ∧
      semi.spelling = (.semi, none) := by
  obtain ⟨s1, tokens, run, added, nothing⟩ := reads_gap blank s (text.toList ++ ';' :: rest)
  rw [List.map_eq_nil_iff] at nothing
  rw [nothing, List.reverse_nil, List.nil_append] at added
  have closed' : s1.previous.bind Kind.closer? = none := by
    rwa [Scan.previous, added]
  obtain ⟨c, cs, spelled, -⟩ := bare.begins
  have first := lexeme_bare s1.cursor rest closed' bare spelled
  let s2 := s1.record (.token .string (some text)) (c :: cs)
  let s3 := s2.record (.token .semi none) [';']
  refine ⟨s3, ⟨.string, some text, s1.cursor.spanning (c :: cs).length⟩,
    ⟨.semi, none, s2.cursor.spanning 1⟩, ?_, ?_, rfl, rfl⟩
  · rw [run, spelled, List.cons_append, Scan.run_cons_ok first, List.take_left, List.drop_left,
      Scan.run_cons_ok (lexeme_semi s2.cursor s2.previous rest), List.take_zero, List.drop_zero]
  · rw [← added]
    rfl

theorem run_chain {phrases : List (String × String)}
    (closed : s.previous.bind Kind.closer? = none)
    (blank : ∀ phrase ∈ phrases, ∀ c ∈ phrase.1.toList, Text.isGap c = true)
    (bare : ∀ phrase ∈ phrases, Bare phrase.2) :
    ∃ tokens, s.run (chainSource phrases).toList = .ok (s.tokens.reverse ++ tokens) ∧
      tokens.map spelling = Outline.wordsAll .program (chainOutlines (phrases.map Prod.snd)) := by
  induction phrases generalizing s with
  | nil => exact ⟨[], by simp [chainSource, Scan.run_nil], rfl⟩
  | cons phrase phrases ih =>
    rw [List.forall_mem_cons] at blank bare
    obtain ⟨s', word, semi, run, added, worded, ended⟩ :=
      run_phrase (chainSource phrases).toList closed blank.1 bare.1
    have ends : semi.kind = .semi := congrArg Prod.fst ended
    have closed' : s'.previous.bind Kind.closer? = none := by
      simp [Scan.previous, added, ends, Kind.closer?, Kind.opens]
    obtain ⟨tokens, rest, said⟩ := ih closed' blank.2 bare.2
    have parts : (chainSource (phrase :: phrases)).toList =
        phrase.1.toList ++ (phrase.2.toList ++ ';' :: (chainSource phrases).toList) := by
      simp [chainSource]
    refine ⟨word :: semi :: tokens, ?_, ?_⟩
    · rw [parts, run, rest, added]
      simp
    · rw [List.map_cons, List.map_cons, worded, ended, said]
      rfl

end Scanning

end Token

section Drawing

variable (settings : Settings) (texts : List String)

theorem allWellFormed_chainOutlines : Outline.AllWellFormed (chainOutlines texts) := by
  induction texts with
  | nil => trivial
  | cons text texts ih => exact ⟨by simp [Outline.WellFormed], ih⟩

theorem numberAll_chain_cons (next : NodeId) (text : String) :
    Outline.numberAll next (chainOutlines (text :: texts)) =
      .expression next text .square :: Outline.numberAll (next + 1) (chainOutlines texts) := rfl

theorem NodeId.add_one_add (id : NodeId) (i : Nat) : id + 1 + .ofNat i = id + .ofNat (i + 1) := by
  rw [UInt32.ofNat_add, UInt32.add_comm (.ofNat i), UInt32.add_assoc]
  rfl

theorem boxesAll_chain (next : NodeId) :
    Node.boxesAll (Outline.numberAll next (chainOutlines texts)) =
      texts.mapIdx fun i text => ⟨next + .ofNat i, text, .square⟩ := by
  induction texts generalizing next with
  | nil => rfl
  | cons text texts ih =>
    rw [numberAll_chain_cons, Node.boxesAll, ih, List.mapIdx_cons]
    simp only [NodeId.add_one_add]
    simp [Node.boxes]

theorem blockEdges_chain (before : NodeId) :
    Node.blockEdges settings [before] (Outline.numberAll (before + 1) (chainOutlines texts)) =
      (List.range texts.length).map fun i => ⟨[before + .ofNat i], before + .ofNat (i + 1), none⟩ := by
  induction texts generalizing before with
  | nil => rfl
  | cons text texts ih =>
    rw [numberAll_chain_cons, Node.blockEdges, Node.exits, ih, List.length_cons,
      List.range_succ_eq_map, List.map_cons, List.map_map]
    simp only [NodeId.add_one_add]
    simp [Node.passage, Node.linkable?, Node.isLeave, Node.id, Node.innerEdges, Function.comp_def]

theorem edges_chain :
    Node.blockEdges settings [] (Outline.numberAll 1 (chainOutlines texts)) =
      (List.range (texts.length - 1)).map fun i => ⟨[1 + .ofNat i], 1 + .ofNat (i + 1), none⟩ := by
  cases texts with
  | nil => rfl
  | cons text texts => exact blockEdges_chain settings texts 1

theorem NodeId.toNat_one_add {i : Nat} (h : i + 1 < UInt32.size) :
    ((1 : NodeId) + .ofNat i).toNat = i + 1 := by
  have bound : i < UInt32.size := by omega
  rw [UInt32.toNat_add, UInt32.toNat_ofNat_of_lt' bound]
  simp only [UInt32.size] at h
  simp
  omega

theorem NodeId.name_one_add {i : Nat} (h : i + 1 < UInt32.size) :
    NodeId.name (1 + .ofNat i) = toString (i + 1) := by
  rw [NodeId.name, NodeId.toNat_one_add h]

theorem eraseDups_of_nodup {α : Type} [DecidableEq α] {l : List α} (h : l.Nodup) :
    l.eraseDups = l := by
  induction l using List.reverseRecOn with
  | nil => rfl
  | append_singleton l a ih =>
    rw [List.nodup_append'] at h
    rw [eraseDups_concat, if_neg (by simpa using h.2.2), ih h.1]

theorem eraseDups_replicate {α : Type} [DecidableEq α] (n : Nat) (a : α) :
    (List.replicate n a).eraseDups = if n = 0 then [] else [a] := by
  cases n with
  | zero => rfl
  | succ n => simp [List.replicate_succ, List.eraseDups_cons]

def chainProgram (direction : Direction) (texts : List String) : Program where
  direction
  nodes := Outline.numberAll 1 (chainOutlines texts)

theorem ofSource_chain {phrases : List (String × String)}
    (blank : ∀ phrase ∈ phrases, ∀ c ∈ phrase.1.toList, Text.isGap c = true)
    (bare : ∀ phrase ∈ phrases, Bare phrase.2) :
    Program.ofSource settings (chainSource phrases) =
      .ok (chainProgram settings.direction (phrases.map Prod.snd)) := by
  obtain ⟨tokens, scanned, said⟩ := Token.run_chain (s := {}) rfl blank bare
  have derived : Grammar.Derives tokens (chainOutlines (phrases.map Prod.snd)) :=
    Outline.statements_of_words (allWellFormed_chainOutlines _) (by simp) said
  have read : Program.ofTokens settings.direction tokens =
      .ok (chainProgram settings.direction (phrases.map Prod.snd)) :=
    Program.ofTokens_eq_ok_iff.2 ⟨_, derived, rfl⟩
  rw [Program.ofSource, tokenize, scanned]
  exact read

theorem boxLines_chain (few : texts.length < UInt32.size) (direction : Direction) (theme : Theme) :
    (chainProgram direction texts).boxLines theme = texts.mapIdx fun i text =>
      "  " ++ toString (i + 1) ++ "[\x22" ++ text ++ "\x22]" ++ theme.classSuffix .square ++
        "\n" := by
  rw [Program.boxLines, Program.boxes, chainProgram, boxesAll_chain]
  refine List.ext_getElem (by simp) fun i hi _ => ?_
  have bound : i < texts.length := by simpa using hi
  have name : NodeId.name (1 + .ofNat i) = toString (i + 1) := NodeId.name_one_add (by omega)
  rw [List.getElem_map, List.getElem_mapIdx, List.getElem_mapIdx, Box.stem, name]
  simp only [Shape.brackets, String.append_assoc]
  rfl

theorem shapes_chain (direction : Direction) :
    (chainProgram direction texts).shapes = if texts.length = 0 then [] else [.square] := by
  have same : (chainProgram direction texts).boxes.map Box.shape =
      List.replicate texts.length .square := by
    rw [Program.boxes, chainProgram, boxesAll_chain]
    exact List.ext_getElem (by simp) (by simp)
  rw [Program.shapes, same, eraseDups_replicate]

theorem lines_links_chain (few : texts.length < UInt32.size) (direction : Direction) :
    ((chainProgram direction texts).links settings).lines =
      (List.range (texts.length - 1)).map fun i =>
        "  " ++ toString (i + 1) ++ "-->" ++ toString (i + 2) ++ "\n" := by
  have edges : (chainProgram direction texts).edges settings =
      (List.range (texts.length - 1)).map fun i => ⟨[1 + .ofNat i], 1 + .ofNat (i + 1), none⟩ :=
    edges_chain settings texts
  have distinct : ((chainProgram direction texts).edges settings).Nodup := by
    rw [edges]
    refine List.Nodup.map_on ?_ List.nodup_range
    intro i hi j hj same
    rw [List.mem_range] at hi hj
    have targets := congrArg (UInt32.toNat ∘ Edge.target) same
    simp only [Function.comp_apply] at targets
    rw [NodeId.toNat_one_add (by omega), NodeId.toNat_one_add (by omega)] at targets
    omega
  rw [Program.lines_links, eraseDups_of_nodup distinct, edges, List.map_map]
  refine List.map_congr_left fun i hi => ?_
  rw [List.mem_range] at hi
  have source : NodeId.name (1 + .ofNat i) = toString (i + 1) := NodeId.name_one_add (by omega)
  have target : NodeId.name (1 + .ofNat (i + 1)) = toString (i + 2) := NodeId.name_one_add (by omega)
  simp only [Function.comp_apply, Edge.link, Link.line, List.map_cons, List.map_nil, source, target,
    String.intercalate_singleton]

theorem styleText_chain (few : texts.length < UInt32.size) (direction : Direction) :
    (chainProgram direction texts).styleText settings =
      (if texts.length = 0 then "" else (settings.theme.classLine? .square).getD "") ++
      (if texts.length ≤ 1 then "" else settings.theme.linkLine?.getD "") := by
  have classes : String.join ((chainProgram direction texts).shapes.filterMap
      settings.theme.classLine?) =
      if texts.length = 0 then "" else (settings.theme.classLine? .square).getD "" := by
    rw [shapes_chain]
    split
    next => rfl
    next => cases line : settings.theme.classLine? .square <;> simp [line]
  have unlinked : ((chainProgram direction texts).links settings).count = 0 ↔ texts.length ≤ 1 := by
    rw [Links.count, lines_links_chain settings texts few, List.length_map, List.length_range]
    omega
  rw [Program.styleText, classes]
  simp only [unlinked, apply_ite (Option.getD · ""), Option.getD_none]

theorem render_chain (few : texts.length < UInt32.size) :
    (chainProgram settings.direction texts).render settings = chainChart settings texts := by
  rw [Program.render_eq, boxLines_chain texts few, Links.text, lines_links_chain settings texts few,
    styleText_chain settings texts few, ← String.append_assoc]
  rfl

end Drawing

/-- Bare texts are drawn as a chain of square boxes, whatever they hold and whatever white space
stands before them. -/
theorem compile_chain (settings : Settings) (phrases : List (String × String))
    (few : phrases.length < UInt32.size - 1)
    (blank : ∀ phrase ∈ phrases, ∀ c ∈ phrase.1.toList, c ∈ [' ', '\t', '\r', '\n'])
    (bare : ∀ phrase ∈ phrases, Bare phrase.2) :
    compile settings (chainSource phrases) =
      .ok (chainChart settings (phrases.map Prod.snd)) := by
  have bound : (phrases.map Prod.snd).length < UInt32.size := by
    rw [List.length_map]
    omega
  have gaps : ∀ c ∈ [' ', '\t', '\r', '\n'], Text.isGap c = true := by
    simp [Text.isGap, Text.isBlank, Text.isNewline]
  have read := ofSource_chain settings
    (fun phrase member c inside => gaps c (blank phrase member c inside)) bare
  rw [Program.compile_of_ofSource read, render_chain _ _ bound]

/-- Texts that begin like reserved words, and one with marks that open what they do not close. -/
def peculiar : List (String × String) :=
  [("", "if"), ("\r\n\t ", "returned)"), ("", "1 [ \x22 // ( /*\n' \x7b "), ("\n", "else(if (x)")]

theorem compile_chain_peculiar :
    (∀ phrase ∈ peculiar, ∀ c ∈ phrase.1.toList, c ∈ [' ', '\t', '\r', '\n']) ∧
    (∀ phrase ∈ peculiar, Bare phrase.2) ∧
    compile { direction := .leftRight, theme := .vivid } (chainSource peculiar) =
      .ok ("flowchart LR;\n  1[\x22if\x22]:::square\n  2[\x22returned)\x22]:::square\n" ++
        "  3[\x221 [ \x22 // ( /*\n' \x7b \x22]:::square\n  4[\x22else(if (x)\x22]:::square\n" ++
        "  1-->2\n  2-->3\n  3-->4\nclassDef square fill:coral\n" ++
        "linkStyle default stroke: red\n") := by
  have blank : ∀ phrase ∈ peculiar, ∀ c ∈ phrase.1.toList, c ∈ [' ', '\t', '\r', '\n'] := by
    simp [peculiar]
  have bare : ∀ phrase ∈ peculiar, Bare phrase.2 := by decide +kernel
  refine ⟨blank, bare, ?_⟩
  rw [compile_chain _ peculiar (by decide) blank bare]
  exact congrArg Except.ok (by decide +kernel)

end Flowchart
