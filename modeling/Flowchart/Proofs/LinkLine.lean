import Flowchart.Chart.Link

/-! The line of a link tells its sources, its label and its target apart, whatever the label says.
The sources end before the first dash, a label stands between the first bar and the last one, and
the target is the digits at the end. This rests on the names of boxes being numbers, however
large. -/
namespace Flowchart

theorem append_inj_of_stop {p : Char → Bool} {front front' rest rest' : List Char}
    (inside : ∀ c ∈ front, p c = true) (inside' : ∀ c ∈ front', p c = true)
    (stop : ∀ c ∈ rest.head?, p c = false) (stop' : ∀ c ∈ rest'.head?, p c = false)
    (h : front ++ rest = front' ++ rest') : front = front' ∧ rest = rest' := by
  have taken : ∀ front rest : List Char, (∀ c ∈ front, p c = true) →
      (∀ c ∈ rest.head?, p c = false) → (front ++ rest).takeWhile p = front := by
    intro front rest inside stop
    rw [List.takeWhile_append_of_pos inside]
    cases rest with
    | nil => simp
    | cons c rest => simp_all
  have fronts : front = front' := by
    rw [← taken front rest inside stop, h, taken front' rest' inside' stop']
  rw [fronts] at h
  exact ⟨fronts, List.append_cancel_left h⟩

structure Decimal (text : String) : Prop where
  ne_nil : text.toList ≠ []
  isDigit : ∀ c ∈ text.toList, c.isDigit = true

namespace Decimal

variable {text text' : String} {rest rest' : List Char}

theorem append_inj (h : Decimal text) (h' : Decimal text')
    (stop : ∀ c ∈ rest.head?, c.isDigit = false) (stop' : ∀ c ∈ rest'.head?, c.isDigit = false)
    (same : text.toList ++ rest = text'.toList ++ rest') : text = text' ∧ rest = rest' := by
  obtain ⟨digits, rests⟩ := append_inj_of_stop h.isDigit h'.isDigit stop stop' same
  exact ⟨String.toList_inj.1 digits, rests⟩

theorem ne_of_mem (h : Decimal text) {c d : Char} (member : c ∈ text.toList)
    (other : d.isDigit = false) : c ≠ d := by
  rintro rfl
  rw [h.isDigit c member] at other
  cases other

end Decimal

namespace NodeId

theorem toList_name (id : NodeId) : id.name.toList = Nat.toDigits 10 id.toNat := Nat.toList_repr

theorem isDigit_of_mem_name {id : NodeId} {c : Char} (h : c ∈ id.name.toList) :
    c.isDigit = true := by
  rw [toList_name] at h
  exact Nat.isDigit_of_mem_toDigits (by omega) (by omega) h

theorem toList_name_ne_nil (id : NodeId) : id.name.toList ≠ [] := by
  rw [toList_name]
  exact Nat.toDigits_ne_nil

theorem decimal_name (id : NodeId) : Decimal id.name :=
  ⟨id.toList_name_ne_nil, fun _ => isDigit_of_mem_name⟩

theorem name_injective {id id' : NodeId} (h : id.name = id'.name) : id = id' := by
  have digits := congrArg String.toList h
  rw [toList_name, toList_name] at digits
  have values := congrArg (Nat.ofDigitChars 10 · 0) digits
  simp only [Nat.ofDigitChars_ten_toDigits] at values
  exact UInt32.toNat_inj.1 values

end NodeId

theorem name_append_inj {id id' : NodeId} {rest rest' : List Char}
    (stop : ∀ c ∈ rest.head?, c.isDigit = false) (stop' : ∀ c ∈ rest'.head?, c.isDigit = false)
    (h : id.name.toList ++ rest = id'.name.toList ++ rest') : id = id' ∧ rest = rest' := by
  obtain ⟨names, rests⟩ := id.decimal_name.append_inj id'.decimal_name stop stop' h
  exact ⟨NodeId.name_injective names, rests⟩

def sourceText (names : List String) : List Char := (" & ".intercalate names).toList

theorem sourceText_singleton (name : String) : sourceText [name] = name.toList := by
  simp [sourceText]

theorem sourceText_cons_cons (name name' : String) (names : List String) :
    sourceText (name :: name' :: names) =
      name.toList ++ ' ' :: '&' :: ' ' :: sourceText (name' :: names) := by
  simp [sourceText, String.intercalate_cons_cons]

theorem ne_dash_of_mem_sourceText {names : List String} (decimal : ∀ name ∈ names, Decimal name)
    {c : Char} (h : c ∈ sourceText names) : c ≠ '-' := by
  induction names with
  | nil => simp [sourceText] at h
  | cons name names ih =>
    obtain ⟨first, others⟩ := List.forall_mem_cons.1 decimal
    cases names with
    | nil => exact first.ne_of_mem (by rwa [sourceText_singleton] at h) (by decide)
    | cons name' names =>
      rw [sourceText_cons_cons, List.mem_append] at h
      rcases h with digit | rest
      · exact first.ne_of_mem digit (by decide)
      · simp only [List.mem_cons] at rest
        rcases rest with rfl | rfl | rfl | rest
        · decide
        · decide
        · decide
        · exact ih others rest

theorem sourceText_injective {names names' : List String} (nonempty : names ≠ [])
    (nonempty' : names' ≠ [])
    (decimal : ∀ name ∈ names, Decimal name) (decimal' : ∀ name ∈ names', Decimal name)
    (h : sourceText names = sourceText names') : names = names' := by
  induction names generalizing names' with
  | nil => exact absurd rfl nonempty
  | cons name names ih =>
    obtain ⟨name', names', rfl⟩ := List.exists_cons_of_ne_nil nonempty'
    obtain ⟨first, others⟩ := List.forall_mem_cons.1 decimal
    obtain ⟨first', others'⟩ := List.forall_mem_cons.1 decimal'
    cases names with
    | nil =>
      cases names' with
      | nil =>
        rw [sourceText_singleton, sourceText_singleton, String.toList_inj] at h
        rw [h]
      | cons second' names' =>
        rw [sourceText_singleton, sourceText_cons_cons, ← List.append_nil name.toList] at h
        have ends := (first.append_inj first' (by simp) (by simp) h).2
        simp at ends
    | cons second names =>
      cases names' with
      | nil =>
        rw [sourceText_singleton, sourceText_cons_cons, ← List.append_nil name'.toList] at h
        have ends := (first.append_inj first' (by simp) (by simp) h).2
        simp at ends
      | cons second' names' =>
        rw [sourceText_cons_cons, sourceText_cons_cons] at h
        obtain ⟨rfl, rests⟩ := first.append_inj first' (by simp) (by simp) h
        simp only [List.cons.injEq, true_and] at rests
        rw [ih (by simp) (by simp) others others' rests]

def arrival (label : Option String) (target : String) : List Char :=
  match label with
  | some label => '|' :: (label.toList ++ '|' :: (target.toList ++ ['\n']))
  | none => target.toList ++ ['\n']

theorem arrival_some_ne {label target target' : String} (decimal : Decimal target') :
    arrival (some label) target ≠ arrival none target' := by
  intro same
  obtain ⟨c, digits, name⟩ := List.exists_cons_of_ne_nil decimal.ne_nil
  have digit : c ≠ '|' := decimal.ne_of_mem (by simp [name]) (by decide)
  simp only [arrival, name, List.cons_append, List.cons.injEq] at same
  exact digit same.1.symm

theorem arrival_injective {label label' : Option String} {target target' : String}
    (decimal : Decimal target) (decimal' : Decimal target')
    (h : arrival label target = arrival label' target') : label = label' ∧ target = target' := by
  cases label with
  | none =>
    cases label' with
    | none =>
      have names : target.toList ++ ['\n'] = target'.toList ++ ['\n'] := h
      exact ⟨rfl, String.toList_inj.1 (List.append_cancel_right names)⟩
    | some label' => exact absurd h.symm (arrival_some_ne decimal)
  | some label =>
    cases label' with
    | none => exact absurd h (arrival_some_ne decimal')
    | some label' =>
      -- Read from the end, the target comes before the last bar.
      have backwards := congrArg List.reverse h
      simp only [arrival, List.reverse_cons, List.reverse_append, List.reverse_nil,
        List.nil_append, List.append_assoc, List.cons_append, List.cons.injEq, true_and]
        at backwards
      obtain ⟨names, labels⟩ := append_inj_of_stop
        (fun c member => decimal.isDigit c (List.mem_reverse.1 member))
        (fun c member => decimal'.isDigit c (List.mem_reverse.1 member))
        (by simp) (by simp) backwards
      simp only [List.cons.injEq, true_and, List.append_cancel_right_eq, List.reverse_inj,
        String.toList_inj] at labels
      exact ⟨congrArg some labels, String.toList_inj.1 (List.reverse_inj.1 names)⟩

def Link.ofNames (sources : List String) (target : String) (label : Option String) : Link :=
  ⟨" & ".intercalate sources, target, label⟩

namespace Link

variable {sources sources' : List String} {target target' : String} {label label' : Option String}

theorem toList_line_ofNames (sources : List String) (target : String) (label : Option String) :
    (ofNames sources target label).line.toList =
      ' ' :: ' ' :: (sourceText sources ++ '-' :: '-' :: '>' :: arrival label target) := by
  cases label <;> simp [ofNames, line, sourceText, arrival]

/-- Between boxes whose names are numbers no two links share a line. -/
theorem line_ofNames_injective (nonempty : sources ≠ []) (nonempty' : sources' ≠ [])
    (decimal : ∀ name ∈ sources, Decimal name) (decimal' : ∀ name ∈ sources', Decimal name)
    (into : Decimal target) (into' : Decimal target')
    (h : (ofNames sources target label).line = (ofNames sources' target' label').line) :
    sources = sources' ∧ target = target' ∧ label = label' := by
  have texts := congrArg String.toList h
  simp only [toList_line_ofNames, List.cons.injEq, true_and] at texts
  obtain ⟨names, arrivals⟩ := append_inj_of_stop
    (p := (· != '-')) (fun c member => by simpa using ne_dash_of_mem_sourceText decimal member)
    (fun c member => by simpa using ne_dash_of_mem_sourceText decimal' member) (by simp) (by simp)
    texts
  simp only [List.cons.injEq, true_and] at arrivals
  obtain ⟨labels, targets⟩ := arrival_injective into into' arrivals
  exact ⟨sourceText_injective nonempty nonempty' decimal decimal' names, targets, labels⟩

end Link

namespace Edge

/-- How a link is written: the numbers of the boxes that it comes from, an arrow with the label if
there is one, and the number of the box that it leads to. -/
def text (edge : Edge) : String :=
  "  " ++ " & ".intercalate (edge.sources.map fun id => toString id.toNat) ++
    edge.label.elim "-->" (fun label => "-->|" ++ label ++ "|") ++ toString edge.target.toNat ++ "\n"

theorem line_link (edge : Edge) : edge.link.line = edge.text := by
  have name : NodeId.name = fun id => toString id.toNat := rfl
  obtain ⟨sources, target, label⟩ := edge
  cases label with
  | none => rfl
  | some label => simp [link, Link.line, text, name, String.append_assoc]

theorem link_eq (edge : Edge) :
    edge.link = .ofNames (edge.sources.map NodeId.name) edge.target.name edge.label := rfl

theorem decimal_of_mem_sources {edge : Edge} {name : String}
    (h : name ∈ edge.sources.map NodeId.name) : Decimal name := by
  obtain ⟨id, -, rfl⟩ := List.mem_map.1 h
  exact id.decimal_name

theorem line_injective {edge edge' : Edge} (nonempty : edge.sources ≠ [])
    (nonempty' : edge'.sources ≠ []) (h : edge.link.line = edge'.link.line) : edge = edge' := by
  rw [link_eq, link_eq] at h
  obtain ⟨names, target, label⟩ := Link.line_ofNames_injective (by simpa using nonempty)
    (by simpa using nonempty') (fun _ => decimal_of_mem_sources) (fun _ => decimal_of_mem_sources)
    edge.target.decimal_name edge'.target.decimal_name h
  rw [Edge.mk.injEq]
  exact ⟨(List.map_inj_right fun _ _ => NodeId.name_injective).1 names,
    NodeId.name_injective target, label⟩

end Edge

end Flowchart
