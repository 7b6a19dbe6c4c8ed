/-! The order of lists by their first difference, and with it the order of names by their bytes. -/
namespace Flowchart.Text

/-- A list comes before those that continue it; otherwise the first place at which two lists differ
decides. -/
def listLe {α : Type} [DecidableEq α] (le : α → α → Bool) : List α → List α → Bool
  | [], _ => true
  | _ :: _, [] => false
  | a :: as, b :: bs => if a = b then listLe le as bs else le a b

section
variable {α : Type} [DecidableEq α] {le : α → α → Bool}

theorem listLe_total (total : ∀ a b, le a b = true ∨ le b a = true) (as bs : List α) :
    listLe le as bs = true ∨ listLe le bs as = true := by
  induction as generalizing bs with
  | nil => exact .inl rfl
  | cons a as ih =>
    cases bs with
    | nil => exact .inr rfl
    | cons b bs =>
      by_cases h : a = b
      · simpa [listLe, h] using ih bs
      · simpa [listLe, h, Ne.symm h] using total a b

theorem listLe_antisymm (antisymm : ∀ a b, le a b = true → le b a = true → a = b)
    {as bs : List α} (h : listLe le as bs = true) (h' : listLe le bs as = true) : as = bs := by
  induction as generalizing bs with
  | nil =>
    cases bs with
    | nil => rfl
    | cons b bs => cases h'
  | cons a as ih =>
    cases bs with
    | nil => cases h
    | cons b bs =>
      by_cases same : a = b
      · subst same
        simp only [listLe, ↓reduceIte] at h h'
        rw [ih h h']
      · simp only [listLe, same, Ne.symm same, ↓reduceIte] at h h'
        exact absurd (antisymm a b h h') same

theorem listLe_trans (antisymm : ∀ a b, le a b = true → le b a = true → a = b)
    (trans : ∀ a b c, le a b = true → le b c = true → le a c = true)
    {as bs cs : List α} (h : listLe le as bs = true) (h' : listLe le bs cs = true) :
    listLe le as cs = true := by
  induction as generalizing bs cs with
  | nil => rfl
  | cons a as ih =>
    cases bs with
    | nil => cases h
    | cons b bs =>
      cases cs with
      | nil => cases h'
      | cons c cs =>
        by_cases hab : a = b
        · subst hab
          by_cases hac : a = c
          · subst hac
            simp only [listLe, ↓reduceIte] at h h' ⊢
            exact ih h h'
          · simpa [listLe, hac] using h'
        · simp only [listLe, hab, ↓reduceIte] at h
          by_cases hbc : b = c
          · subst hbc
            simpa [listLe, hab] using h
          · simp only [listLe, hbc, ↓reduceIte] at h'
            have hac : a ≠ c := by
              intro same
              subst same
              exact hab (antisymm a b h h')
            simpa [listLe, hac] using trans a b c h h'

end

def bytes (text : String) : List UInt8 := text.toUTF8.data.toList

def byteLe (a b : UInt8) : Bool := a.toNat ≤ b.toNat

/-- Names are ordered by the bytes of their UTF-8 form. -/
def nameLe (a b : String) : Bool := listLe byteLe (bytes a) (bytes b)

def namesLe (as bs : List String) : Bool := listLe nameLe as bs

theorem byteLe_total (a b : UInt8) : byteLe a b = true ∨ byteLe b a = true := by
  simp only [byteLe, decide_eq_true_eq]
  omega

theorem byteLe_antisymm (a b : UInt8) (h : byteLe a b = true) (h' : byteLe b a = true) : a = b := by
  simp only [byteLe, decide_eq_true_eq] at h h'
  exact UInt8.toNat_inj.1 (by omega)

theorem byteLe_trans (a b c : UInt8) (h : byteLe a b = true) (h' : byteLe b c = true) :
    byteLe a c = true := by
  simp only [byteLe, decide_eq_true_eq] at h h' ⊢
  omega

theorem bytes_injective {a b : String} (h : bytes a = bytes b) : a = b := by
  apply String.toByteArray_inj.1
  apply ByteArray.ext
  apply Array.toList_inj.1
  simpa [bytes] using h

theorem nameLe_total (a b : String) : nameLe a b = true ∨ nameLe b a = true :=
  listLe_total byteLe_total _ _

theorem nameLe_antisymm (a b : String) (h : nameLe a b = true) (h' : nameLe b a = true) : a = b :=
  bytes_injective (listLe_antisymm byteLe_antisymm h h')

theorem nameLe_trans (a b c : String) (h : nameLe a b = true) (h' : nameLe b c = true) :
    nameLe a c = true :=
  listLe_trans byteLe_antisymm byteLe_trans h h'

theorem namesLe_total (as bs : List String) : namesLe as bs = true ∨ namesLe bs as = true :=
  listLe_total nameLe_total as bs

theorem namesLe_antisymm {as bs : List String} (h : namesLe as bs = true)
    (h' : namesLe bs as = true) : as = bs :=
  listLe_antisymm nameLe_antisymm h h'

theorem namesLe_trans {as bs cs : List String} (h : namesLe as bs = true)
    (h' : namesLe bs cs = true) : namesLe as cs = true :=
  listLe_trans nameLe_antisymm nameLe_trans h h'

end Flowchart.Text
