import DialogScript.Json.Reader
import DialogScript.Proofs.MemberOrder
import Mathlib.Algebra.Group.Int.Defs
import Mathlib.Algebra.Group.Nat.Defs

/-! What reading can give: numbers of 64 bits, members in order, brackets no deeper than allowed. -/

namespace DialogScript.Json

/-- A whole number is one of 64 bits, with a sign or without. -/
def Number.Fits : Number → Prop
  | .int n => -2 ^ 63 ≤ n ∧ n < 2 ^ 64
  | .float _ => True

theorem appendDigits_lt (h : acc < bound) (digits : List Nat) :
    (appendDigits bound acc digits).1 < bound := by
  induction digits generalizing acc with
  | nil => exact h
  | cons d ds ih =>
    rw [appendDigits]
    split
    next hlt => exact ih hlt
    next => exact h

theorem Numeral.fits_whole64 (negative : Bool) (h : n < 2 ^ 64) : (whole64 negative n).Fits := by
  rw [whole64]
  split
  next =>
    rw [Number.Fits]
    omega
  next =>
    split
    next => trivial
    next hn =>
      have hle : n ≤ 2 ^ 63 := by
        rw [Bool.or_eq_true, not_or, decide_eq_true_iff, decide_eq_true_iff] at hn
        exact Nat.le_of_not_lt hn.2
      rw [Number.Fits]
      omega

theorem Numeral.fits_of_value {numeral : Numeral} (h : numeral.value = .ok n) : n.Fits := by
  have hhead : (appendDigits (Nat.pow 2 64) 0 numeral.whole).1 < Nat.pow 2 64 :=
    appendDigits_lt (by decide) numeral.whole
  have hlt := appendDigits_lt hhead numeral.fraction
  simp only [value] at h
  split at h
  next =>
    split at h
    next =>
      cases h
      exact fits_whole64 _ hlt
    next =>
      split at h
      next =>
        cases h
        trivial
      next => cases h
  next =>
    split at h
    next =>
      split at h
      next =>
        cases h
        trivial
      next => cases h
    next =>
      split at h
      next => cases h
      next =>
        cases h
        trivial

/-- A value that strict reading can give where `depth` brackets may still open. -/
inductive Readable : Nat → Json → Prop
  | null : Readable depth .null
  | bool : Readable depth (.bool b)
  | number (h : n.Fits) : Readable depth (.number n)
  | string : Readable depth (.string text)
  | array (h : ∀ v ∈ items, Readable depth v) : Readable (depth + 1) (.array items)
  | object (horder : InOrder members) (h : ∀ m ∈ members, Readable depth m.2) :
    Readable (depth + 1) (.object members)

theorem exists_of_values? {ds : List Document} (h : Document.values? ds = some vs) :
    ∀ v ∈ vs, ∃ d ∈ ds, d.value? = some v := by
  induction ds generalizing vs with
  | nil =>
    cases h
    exact fun _ hv => (List.not_mem_nil hv).elim
  | cons d ds ih =>
    rw [Document.values?] at h
    split at h
    next v vs' hv hvs =>
      cases h
      rw [List.forall_mem_cons]
      refine ⟨⟨d, List.mem_cons_self, hv⟩, ?_⟩
      intro v' hv'
      obtain ⟨d', hd', he⟩ := ih hvs v' hv'
      exact ⟨d', List.mem_cons_of_mem _ hd', he⟩
    next => cases h

theorem exists_of_members? {members : List (Option Text × Document)}
    (h : Document.members? members = some found) :
    ∀ m ∈ found, ∃ entry ∈ members, entry.2.value? = some m.2 := by
  induction members generalizing found with
  | nil =>
    cases h
    exact fun _ hm => (List.not_mem_nil hm).elim
  | cons entry rest ih =>
    obtain ⟨key?, d⟩ := entry
    simp only [Document.members?] at h
    split at h
    next key v found' hv hfound =>
      cases h
      rw [List.forall_mem_cons]
      refine ⟨⟨_, List.mem_cons_self, hv⟩, ?_⟩
      intro m hm
      obtain ⟨entry, hentry, he⟩ := ih hfound m hm
      exact ⟨entry, List.mem_cons_of_mem _ hentry, he⟩
    next => cases h

/-- The value of the document, if it has one, is readable. -/
def Document.Sound (depth : Nat) (d : Document) : Prop := ∀ v, d.value? = some v → Readable depth v

theorem sound_list {ds : List Document} (h : ∀ d ∈ ds, d.Sound depth) :
    (Document.list ds).Sound (depth + 1) := by
  intro v hv
  obtain ⟨vs, hvs, rfl⟩ := Option.map_eq_some_iff.1 hv
  apply Readable.array
  intro v' hv'
  obtain ⟨d, hd, he⟩ := exists_of_values? hvs v' hv'
  exact h d hd v' he

theorem sound_object {members : List (Option Text × Document)}
    (h : ∀ m ∈ members, m.2.Sound depth) :
    (Document.object members).Sound (depth + 1) := by
  intro v hv
  obtain ⟨found, hfound, rfl⟩ := Option.map_eq_some_iff.1 hv
  apply Readable.object (inOrder_sortMembers found)
  intro m hm
  obtain ⟨entry, hentry, he⟩ := exists_of_members? hfound m (mem_sortMembers hm)
  exact h entry hentry m.2 he

/-- A reader that gives sound documents only. -/
def SoundReader (depth : Nat) (item : Text → Result (Document × Text)) : Prop :=
  ∀ text d rest, item text = .ok (d, rest) → d.Sound depth

theorem bind_eq_ok {x : Result α} {f : α → Result β} (h : (x >>= f) = .ok b) :
    ∃ a, x = .ok a ∧ f a = .ok b := by
  cases x with
  | error e => cases h
  | ok a => exact ⟨a, rfl, h⟩

theorem SoundReader.readItems {item : Text → Result (Document × Text)}
    (hitem : SoundReader depth item) (h : readItems item fuel text = .ok (ds, rest)) :
    ∀ d ∈ ds, d.Sound depth := by
  induction fuel generalizing text ds rest with
  | zero => cases h
  | succ fuel ih =>
    obtain ⟨⟨d, after⟩, hd, h⟩ := bind_eq_ok h
    have hsound := hitem text d after hd
    dsimp only at h
    split at h
    next =>
      cases h
      exact List.forall_mem_singleton.2 hsound
    next =>
      split at h
      next => cases h
      next =>
        obtain ⟨⟨ds', rest'⟩, hds, h⟩ := bind_eq_ok h
        cases h
        exact List.forall_mem_cons.2 ⟨hsound, ih hds⟩
    next => cases h

theorem map_eq_ok {x : Except ε α} {f : α → β} (h : x.map f = .ok b) :
    ∃ a, x = .ok a ∧ f a = b := by
  cases x with
  | error e => cases h
  | ok a => exact ⟨a, rfl, Except.ok.inj h⟩

theorem SoundReader.readList {item : Text → Result (Document × Text)}
    (hitem : SoundReader depth item) : SoundReader (depth + 1) (readList item) := by
  intro text d rest h
  rw [Json.readList] at h
  split at h
  next => cases h
  next =>
    cases h
    exact sound_list (fun _ hd => (List.not_mem_nil hd).elim)
  next =>
    obtain ⟨⟨ds, after⟩, hds, he⟩ := map_eq_ok h
    cases he
    exact sound_list (hitem.readItems hds)

theorem SoundReader.readMember {item : Text → Result (Document × Text)}
    (hitem : SoundReader depth item) (h : readMember strict item text = .ok (m, rest)) :
    m.2.Sound depth := by
  obtain ⟨⟨key?, afterKey⟩, -, h⟩ := bind_eq_ok h
  dsimp only at h
  split at h
  next =>
    obtain ⟨⟨d, after⟩, hd, h⟩ := bind_eq_ok h
    cases h
    exact hitem _ d after hd
  next => cases h

theorem SoundReader.readMembers {item : Text → Result (Document × Text)}
    (hitem : SoundReader depth item) (h : readMembers strict item fuel text = .ok (ms, rest)) :
    ∀ m ∈ ms, m.2.Sound depth := by
  induction fuel generalizing text ms rest with
  | zero => cases h
  | succ fuel ih =>
    obtain ⟨⟨m, after⟩, hm, h⟩ := bind_eq_ok h
    have hsound := hitem.readMember hm
    dsimp only at h
    split at h
    next =>
      cases h
      exact List.forall_mem_singleton.2 hsound
    next =>
      split at h
      next =>
        obtain ⟨⟨ms', rest'⟩, hms, h⟩ := bind_eq_ok h
        cases h
        exact List.forall_mem_cons.2 ⟨hsound, ih hms⟩
      next => cases h
      next => cases h
    next => cases h

theorem SoundReader.readObject {item : Text → Result (Document × Text)}
    (hitem : SoundReader depth item) : SoundReader (depth + 1) (readObject strict item) := by
  intro text d rest h
  rw [Json.readObject] at h
  split at h
  next =>
    cases h
    exact sound_object (fun _ hm => (List.not_mem_nil hm).elim)
  next =>
    obtain ⟨⟨ms, after⟩, hms, he⟩ := map_eq_ok h
    cases he
    exact sound_object (hitem.readMembers hms)
  next => cases h

theorem readLetters_eq (h : readLetters result letters text = .ok (d, rest)) : d = result := by
  induction letters generalizing text with
  | nil =>
    cases h
    rfl
  | cons e letters ih =>
    cases text with
    | nil => cases h
    | cons c text =>
      rw [readLetters] at h
      split at h
      next => exact ih h
      next => cases h

theorem sound_read (h : Number.read strict negative text = .ok (d, rest)) : d.Sound depth := by
  obtain ⟨⟨whole, afterWhole⟩, -, h⟩ := bind_eq_ok h
  obtain ⟨⟨fraction, afterFraction⟩, -, h⟩ := bind_eq_ok h
  obtain ⟨⟨exponent?, after⟩, -, h⟩ := bind_eq_ok h
  dsimp only at h
  split at h
  next n hn =>
    cases h
    intro v hv
    cases hv
    exact .number (Numeral.fits_of_value hn)
  next =>
    split at h
    next => cases h
    next =>
      cases h
      exact fun v hv => by cases hv

/-- What a value reader has to know of the reader for the values inside a bracket. -/
theorem sound_readWith {nested? : Option (Text → Result (Document × Text))}
    (hnested : ∀ item ∈ nested?, ∃ inner, depth = inner + 1 ∧ SoundReader inner item) :
    SoundReader depth (readWith strict nested?) := by
  intro text d rest h
  have hletters (result : Document) (hresult : result.Sound depth) {letters after : Text}
      (h : readLetters result letters after = .ok (d, rest)) : d.Sound depth := by
    rw [readLetters_eq h]
    exact hresult
  rw [readWith] at h
  split at h
  next => cases h
  next => exact hletters _ (fun v hv => by cases hv; exact .null) h
  next => exact hletters _ (fun v hv => by cases hv; exact .bool) h
  next => exact hletters _ (fun v hv => by cases hv; exact .bool) h
  next =>
    obtain ⟨⟨text?, after⟩, -, he⟩ := map_eq_ok h
    cases he
    intro v hv
    obtain ⟨t, -, rfl⟩ := Option.map_eq_some_iff.1 hv
    exact .string
  next => exact sound_read h
  next =>
    split at h
    next item =>
      obtain ⟨inner, rfl, hitem⟩ := hnested item rfl
      exact hitem.readList _ d rest h
    next => cases h
  next =>
    split at h
    next item =>
      obtain ⟨inner, rfl, hitem⟩ := hnested item rfl
      exact hitem.readObject _ d rest h
    next => cases h
  next =>
    split at h
    next => exact sound_read h
    next => cases h

theorem sound_readValue (strict : Bool) (depth : Nat) :
    SoundReader depth (readValue strict depth) := by
  induction depth with
  | zero => exact sound_readWith (fun item h => by cases h)
  | succ depth ih =>
    apply sound_readWith
    intro item h
    cases h
    exact ⟨depth, rfl, ih⟩

theorem readable_of_parse (h : parse text = .ok v) : Readable depthLimit v := by
  rw [parse] at h
  cases hd : parseDocument true text with
  | error fault =>
    rw [hd] at h
    cases h
  | ok d =>
    rw [hd] at h
    cases h
    have hsound : d.Sound depthLimit := by
      rw [parseDocument] at hd
      split at hd
      next => cases hd
      next d' rest hread =>
        split at hd
        next =>
          cases hd
          exact sound_readValue true depthLimit text d rest hread
        next => cases hd
    change Readable depthLimit (d.value?.getD .null)
    cases hv : d.value? with
    | none => exact .null
    | some v => exact hsound v hv

end DialogScript.Json
