namespace Rollup

class KeyOrder (κ : Type) where
  before : κ → κ → Bool
  irrefl : ∀ a, before a a = false
  trans : ∀ a b c, before a b = true → before b c = true → before a c = true
  connected : ∀ a b, before a b = false → before b a = false → a = b

namespace KeyOrder

variable {κ ι : Type}

theorem asymm [KeyOrder κ] {a b : κ} (h : before a b = true) : before b a = false := by
  cases hb : before b a with
  | false => rfl
  | true => simpa [irrefl] using trans a b a h hb

theorem ne_of_before [KeyOrder κ] {a b : κ} (h : before a b = true) : a ≠ b := by
  rintro rfl
  simp [irrefl] at h

theorem before_of_not_before [KeyOrder κ] {a b c : κ} (hab : before a b = true)
    (hcb : before c b = false) : before a c = true := by
  cases hbc : before b c with
  | true => exact trans _ _ _ hab hbc
  | false => exact connected _ _ hbc hcb ▸ hab

instance : KeyOrder Nat where
  before a b := decide (a < b)
  irrefl a := by simp
  trans a b c hab hbc := by simp at *; omega
  connected a b hab hba := by simp at *; omega

instance : KeyOrder Int where
  before a b := decide (a < b)
  irrefl a := by simp
  trans a b c hab hbc := by simp at *; omega
  connected a b hab hba := by simp at *; omega

/-- The order that an injective map into an ordered type induces. -/
@[reducible] def ofInjective [KeyOrder ι] (f : κ → ι) (inj : ∀ a b, f a = f b → a = b) :
    KeyOrder κ where
  before a b := before (f a) (f b)
  irrefl a := irrefl (f a)
  trans a b c := trans (f a) (f b) (f c)
  connected a b hab hba := inj a b (connected (f a) (f b) hab hba)

instance : KeyOrder UInt8 := ofInjective UInt8.toNat fun _ _ => UInt8.toNat_inj.mp

instance : KeyOrder UInt32 := ofInjective UInt32.toNat fun _ _ => UInt32.toNat_inj.mp

instance : KeyOrder Int64 := ofInjective Int64.toInt fun _ _ => Int64.toInt_inj.mp

theorem lexicographic_trans [KeyOrder κ] {a b c : κ} {p q r : Bool}
    (hpqr : p = true → q = true → r = true)
    (hab : (before a b || (!before b a && p)) = true)
    (hbc : (before b c || (!before c b && q)) = true) :
    (before a c || (!before c a && r)) = true := by
  simp only [Bool.or_eq_true, Bool.and_eq_true, Bool.not_eq_true'] at *
  rcases hab with hab | ⟨hba, hp⟩
  · rcases hbc with hbc | ⟨hcb, -⟩
    · exact .inl (trans _ _ _ hab hbc)
    · exact .inl (before_of_not_before hab hcb)
  · cases hab' : before a b with
    | true =>
      rcases hbc with hbc | ⟨hcb, -⟩
      · exact .inl (trans _ _ _ hab' hbc)
      · exact .inl (before_of_not_before hab' hcb)
    | false =>
      obtain rfl := connected _ _ hab' hba
      rcases hbc with hbc | ⟨hcb, hq⟩
      · exact .inl hbc
      · exact .inr ⟨hcb, hpqr hp hq⟩

theorem lexicographic_connected [KeyOrder κ] {a b : κ} {p q : Bool}
    (hab : (before a b || (!before b a && p)) = false)
    (hba : (before b a || (!before a b && q)) = false) :
    a = b ∧ p = false ∧ q = false := by
  simp only [Bool.or_eq_false_iff, Bool.and_eq_false_iff, Bool.not_eq_false'] at *
  obtain rfl := connected _ _ hab.1 hba.1
  simpa [irrefl] using And.intro hab.2 hba.2

/-- Lexicographic order on pairs: the second components decide between equal first ones. -/
instance [KeyOrder κ] [KeyOrder ι] : KeyOrder (κ × ι) where
  before a b := before a.1 b.1 || (!before b.1 a.1 && before a.2 b.2)
  irrefl a := by simp [irrefl]
  trans a b c := lexicographic_trans (trans a.2 b.2 c.2)
  connected a b hab hba := by
    obtain ⟨h₁, h₂, h₃⟩ := lexicographic_connected hab hba
    exact Prod.ext h₁ (connected _ _ h₂ h₃)

def listBefore [KeyOrder κ] : List κ → List κ → Bool
  | [], [] => false
  | [], _ :: _ => true
  | _ :: _, [] => false
  | a :: as, b :: bs => before a b || (!before b a && listBefore as bs)

theorem listBefore_irrefl [KeyOrder κ] (as : List κ) : listBefore as as = false := by
  induction as with
  | nil => rfl
  | cons a as ih => simp [listBefore, irrefl, ih]

theorem listBefore_trans [KeyOrder κ] (as bs cs : List κ) (hab : listBefore as bs = true)
    (hbc : listBefore bs cs = true) : listBefore as cs = true := by
  induction as generalizing bs cs with
  | nil =>
    cases cs with
    | nil => cases bs <;> simp [listBefore] at hab hbc
    | cons => rfl
  | cons a as ih =>
    cases bs with
    | nil => simp [listBefore] at hab
    | cons b bs =>
      cases cs with
      | nil => simp [listBefore] at hbc
      | cons c cs => exact lexicographic_trans (ih bs cs) hab hbc

theorem listBefore_connected [KeyOrder κ] (as bs : List κ) (hab : listBefore as bs = false)
    (hba : listBefore bs as = false) : as = bs := by
  induction as generalizing bs with
  | nil =>
    cases bs with
    | nil => rfl
    | cons => simp [listBefore] at hab
  | cons a as ih =>
    cases bs with
    | nil => simp [listBefore] at hba
    | cons b bs =>
      obtain ⟨rfl, h₁, h₂⟩ := lexicographic_connected hab hba
      rw [ih bs h₁ h₂]

instance [KeyOrder κ] : KeyOrder (List κ) where
  before := listBefore
  irrefl := listBefore_irrefl
  trans := listBefore_trans
  connected := listBefore_connected

end KeyOrder

end Rollup
