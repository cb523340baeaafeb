import DialogScript.Proofs.JsonText
import DialogScript.Proofs.JsonValue

/-! Reading the compact text of a value gives the value back, unless it holds a float. -/

namespace DialogScript.Json

mutual

/-- Whether every number in the value is whole. -/
def floatFree : Json → Bool
  | number (.float _) => false
  | array items => itemsFloatFree items
  | object members => membersFloatFree members
  | _ => true

def itemsFloatFree : List Json → Bool
  | [] => true
  | v :: vs => v.floatFree && itemsFloatFree vs

def membersFloatFree : List (Text × Json) → Bool
  | [] => true
  | (_, v) :: rest => v.floatFree && membersFloatFree rest

end

theorem itemsFloatFree_iff {items : List Json} :
    itemsFloatFree items = true ↔ ∀ v ∈ items, v.floatFree = true := by
  induction items with
  | nil => exact iff_of_true rfl (fun _ hv => (List.not_mem_nil hv).elim)
  | cons v vs ih => rw [itemsFloatFree, Bool.and_eq_true, List.forall_mem_cons, ih]

theorem membersFloatFree_iff {members : List (Text × Json)} :
    membersFloatFree members = true ↔ ∀ m ∈ members, m.2.floatFree = true := by
  induction members with
  | nil => exact iff_of_true rfl (fun _ hm => (List.not_mem_nil hm).elim)
  | cons m rest ih => rw [membersFloatFree, Bool.and_eq_true, List.forall_mem_cons, ih]

theorem values?_documents {items : List Json} (h : ∀ v ∈ items, v.document.value? = some v) :
    Document.values? (documents items) = some items := by
  induction items with
  | nil => rfl
  | cons v vs ih =>
    obtain ⟨hv, hvs⟩ := List.forall_mem_cons.1 h
    simp only [documents, Document.values?, hv, ih hvs]

theorem members?_memberDocuments {members : List (Text × Json)}
    (h : ∀ m ∈ members, m.2.document.value? = some m.2) :
    Document.members? (memberDocuments members) = some members := by
  induction members with
  | nil => rfl
  | cons m rest ih =>
    obtain ⟨hm, hrest⟩ := List.forall_mem_cons.1 h
    simp only [memberDocuments, Document.members?, hm, ih hrest]

theorem Readable.value?_document (h : Readable depth v) : v.document.value? = some v := by
  induction h with
  | null => rfl
  | bool => rfl
  | number => rfl
  | string => rfl
  | array _ ih =>
    rw [document, Document.value?, values?_documents ih]
    rfl
  | object horder _ ih =>
    rw [document, Document.value?, members?_memberDocuments ih, Option.map_some,
      horder.sortMembers]

/-- A text that begins as the text of a value does. -/
def Starts (text : Text) : Prop := ∃ c ∈ text.head?, c ∉ [' ', '\t', '\n', '\r', ']']

theorem Starts.append (h : Starts text) (rest : Text) : Starts (text ++ rest) := by
  obtain ⟨c, hc, hnot⟩ := h
  exact ⟨c, List.mem_head?_append_of_mem_head? hc, hnot⟩

theorem Starts.exists_cons (h : Starts text) :
    ∃ c rest, text = c :: rest ∧ skipBlanks text = text ∧ c ≠ ']' := by
  obtain ⟨c, hc, hnot⟩ := h
  obtain ⟨rest, rfl⟩ := List.head?_eq_some_iff.1 hc
  simp only [List.mem_cons, List.not_mem_nil, or_false, not_or] at hnot
  obtain ⟨hspace, htab, hfeed, hreturn, hbracket⟩ := hnot
  refine ⟨c, rest, rfl, ?_, hbracket⟩
  rw [skipBlanks, List.dropWhile_cons_of_neg]
  simp [hspace, htab, hfeed, hreturn]

theorem exists_digit (n : Nat) : ∃ c rest, Nat.toDigits 10 n = c :: rest ∧ c.isDigit = true := by
  cases h : Nat.toDigits 10 n with
  | nil => exact (Nat.toDigits_ne_nil h).elim
  | cons c rest =>
    have hdigits := Number.isDigit_toDigits n
    rw [h] at hdigits
    exact ⟨c, rest, rfl, hdigits c List.mem_cons_self⟩

theorem starts_of_isDigit (h : c.isDigit = true) : Starts (c :: rest) := by
  refine ⟨c, rfl, ?_⟩
  intro hmem
  simp only [List.mem_cons, List.not_mem_nil, or_false] at hmem
  rcases hmem with rfl | rfl | rfl | rfl | rfl <;> exact absurd h (by decide)

theorem starts_print {v : Json} (h : v.floatFree = true) : Starts v.print := by
  cases v with
  | null => exact ⟨'n', rfl, by decide⟩
  | bool b =>
    cases b with
    | false => exact ⟨'f', rfl, by decide⟩
    | true => exact ⟨'t', rfl, by decide⟩
  | number n =>
    cases n with
    | float bits => cases h
    | int n =>
      rw [print, Number.print]
      split
      next => exact ⟨'-', rfl, by decide⟩
      next =>
        obtain ⟨c, rest, hdigits, hc⟩ := exists_digit n.natAbs
        rw [hdigits]
        exact starts_of_isDigit hc
  | string text => exact ⟨'"', rfl, by decide⟩
  | array items => exact ⟨'[', rfl, by decide⟩
  | object members => exact ⟨'{', rfl, by decide⟩

theorem readItems_last {item : Text → Result (Document × Text)}
    (h : item text = .ok (d, ']' :: rest)) : readItems item (fuel + 1) text = .ok ([d], rest) := by
  rw [readItems, h]
  rfl

theorem readItems_more {item : Text → Result (Document × Text)}
    (h : item text = .ok (d, ',' :: rest)) (hstart : Starts rest)
    (hrest : readItems item fuel rest = .ok (ds, left)) :
    readItems item (fuel + 1) text = .ok (d :: ds, left) := by
  obtain ⟨c, after, rfl, hskip, hc⟩ := hstart.exists_cons
  have hcomma : skipBlanks (',' :: c :: after) = ',' :: c :: after := rfl
  rw [readItems, h]
  simp only [bind, Except.bind, hcomma, hskip]
  split
  next he => exact (hc (List.cons_eq_cons.1 he).1).elim
  next => rw [hrest]

theorem starts_printItems {v : Json} (h : Starts v.print) : Starts (printItems (v :: vs)) := by
  cases vs with
  | nil => exact h
  | cons v' vs => exact h.append _

theorem length_le_length_printItems {items : List Json} (h : ∀ v ∈ items, Starts v.print) :
    items.length ≤ (printItems items).length := by
  induction items with
  | nil => exact Nat.zero_le _
  | cons v vs ih =>
    obtain ⟨hv, hvs⟩ := List.forall_mem_cons.1 h
    obtain ⟨c, rest, hc, -⟩ := hv.exists_cons
    cases vs with
    | nil =>
      rw [printItems, hc]
      exact Nat.succ_le_succ (Nat.zero_le _)
    | cons v' vs =>
      have hle := ih hvs
      rw [printItems]
      · simp only [List.length_append, List.length_cons] at hle ⊢
        omega
      · exact List.cons_ne_nil _ _

/-- A reader that reads back what is printed. -/
def Rereads (item : Text → Result (Document × Text)) (v : Json) : Prop :=
  ∀ rest, Ends rest → item (v.print ++ rest) = .ok (v.document, rest)

theorem ends_cons (h : c = ',' ∨ c = ']' ∨ c = '}') (rest : Text) : Ends (c :: rest) := by
  intro d hd
  cases hd
  exact h

theorem readItems_print {item : Text → Result (Document × Text)} {items : List Json}
    (hitem : ∀ v ∈ items, Rereads item v) (hstart : ∀ v ∈ items, Starts v.print)
    (hne : items ≠ []) (hfuel : items.length ≤ fuel) (rest : Text) :
    readItems item fuel (printItems items ++ ']' :: rest) = .ok (documents items, rest) := by
  induction items generalizing fuel with
  | nil => exact (hne rfl).elim
  | cons v vs ih =>
    obtain ⟨hv, hvs⟩ := List.forall_mem_cons.1 hitem
    obtain ⟨-, hstarts⟩ := List.forall_mem_cons.1 hstart
    cases fuel with
    | zero => cases hfuel
    | succ fuel =>
      cases vs with
      | nil => exact readItems_last (hv _ (ends_cons (.inr (.inl rfl)) rest))
      | cons v' vs =>
        have hread := hv (',' :: (printItems (v' :: vs) ++ ']' :: rest)) (ends_cons (.inl rfl) _)
        have hmore : Starts (printItems (v' :: vs) ++ ']' :: rest) :=
          (starts_printItems (hstarts v' List.mem_cons_self)).append _
        have hrest := ih hvs hstarts (List.cons_ne_nil _ _) (Nat.le_of_succ_le_succ hfuel)
        rw [printItems, List.append_assoc]
        · exact readItems_more hread hmore hrest
        · exact List.cons_ne_nil _ _

theorem readList_print {item : Text → Result (Document × Text)} {items : List Json}
    (hitem : ∀ v ∈ items, Rereads item v) (hstart : ∀ v ∈ items, Starts v.print) (rest : Text) :
    readList item (printItems items ++ ']' :: rest) = .ok (.list (documents items), rest) := by
  cases items with
  | nil => rfl
  | cons v vs =>
    have hstarts : Starts (printItems (v :: vs) ++ ']' :: rest) :=
      (starts_printItems (hstart v List.mem_cons_self)).append _
    have hfuel : (v :: vs).length ≤ (printItems (v :: vs) ++ ']' :: rest).length + 1 := by
      have hlength := length_le_length_printItems hstart
      rw [List.length_append]
      omega
    have hread := readItems_print hitem hstart (List.cons_ne_nil v vs) hfuel rest
    obtain ⟨c, after, hc, hskip, hbracket⟩ := hstarts.exists_cons
    rw [readList, hskip, hc]
    split
    next he => cases he
    next he => exact (hbracket (List.cons_eq_cons.1 he).1).elim
    next =>
      rw [← hc, hread]
      rfl

theorem readMember_eq {item : Text → Result (Document × Text)}
    (hkey : readString strict text = .ok (key?, ':' :: rest)) (hitem : item rest = .ok (d, left)) :
    readMember strict item text = .ok ((key?, d), left) := by
  have hcolon : skipBlanks (':' :: rest) = ':' :: rest := rfl
  rw [readMember, hkey]
  simp only [bind, Except.bind, hcolon, hitem]

theorem readMembers_last {item : Text → Result (Document × Text)}
    (h : readMember strict item text = .ok (m, '}' :: rest)) :
    readMembers strict item (fuel + 1) text = .ok ([m], rest) := by
  rw [readMembers, h]
  rfl

theorem readMembers_more {item : Text → Result (Document × Text)}
    (h : readMember strict item text = .ok (m, ',' :: '"' :: rest))
    (hrest : readMembers strict item fuel rest = .ok (ms, left)) :
    readMembers strict item (fuel + 1) text = .ok (m :: ms, left) := by
  have hcomma : skipBlanks (',' :: '"' :: rest) = ',' :: '"' :: rest := rfl
  have hquote : skipBlanks ('"' :: rest) = '"' :: rest := rfl
  rw [readMembers, h]
  simp only [bind, Except.bind, hcomma, hquote, hrest]

theorem readMembers_print {item : Text → Result (Document × Text)} {members : List (Text × Json)}
    (hitem : ∀ m ∈ members, Rereads item m.2) (hne : members ≠ []) (strict : Bool) (rest : Text) :
    ∃ text, printMembers members ++ '}' :: rest = '"' :: text ∧
      ∀ fuel, members.length ≤ fuel →
        readMembers strict item fuel text = .ok (memberDocuments members, rest) := by
  induction members with
  | nil => exact (hne rfl).elim
  | cons m ms ih =>
    obtain ⟨key, v⟩ := m
    obtain ⟨hv, hms⟩ := List.forall_mem_cons.1 hitem
    -- members are read from behind the first key's quote, so that is where the text begins
    have hmember {after : Text} (hends : Ends after) :
        readMember strict item (key.flatMap escape ++ '"' :: ':' :: (v.print ++ after)) =
          .ok ((some key, v.document), after) :=
      readMember_eq (readString_printed strict key _) (hv after hends)
    cases ms with
    | nil =>
      refine ⟨key.flatMap escape ++ '"' :: ':' :: (v.print ++ '}' :: rest), ?_, ?_⟩
      · simp [printMembers, printString]
      · intro fuel hfuel
        cases fuel with
        | zero => cases hfuel
        | succ fuel => exact readMembers_last (hmember (ends_cons (.inr (.inr rfl)) rest))
    | cons m' ms =>
      obtain ⟨text, htext, hread⟩ := ih hms (List.cons_ne_nil _ _)
      refine ⟨key.flatMap escape ++ '"' :: ':' :: (v.print ++ ',' :: '"' :: text), ?_, ?_⟩
      · rw [printMembers, ← htext]
        · simp [printString]
        · exact List.cons_ne_nil _ _
      · intro fuel hfuel
        cases fuel with
        | zero => cases hfuel
        | succ fuel =>
          have hfirst := hmember (ends_cons (.inl rfl) ('"' :: text))
          exact readMembers_more hfirst (hread fuel (Nat.le_of_succ_le_succ hfuel))

theorem length_le_length_printMembers (members : List (Text × Json)) :
    members.length ≤ (printMembers members).length := by
  induction members with
  | nil => exact Nat.zero_le _
  | cons m ms ih =>
    obtain ⟨key, v⟩ := m
    cases ms with
    | nil =>
      simp [printMembers, printString]
    | cons m' ms =>
      rw [printMembers]
      · simp only [List.length_append, List.length_cons] at ih ⊢
        omega
      · exact List.cons_ne_nil _ _

theorem readObject_print {item : Text → Result (Document × Text)} {members : List (Text × Json)}
    (hitem : ∀ m ∈ members, Rereads item m.2) (strict : Bool) (rest : Text) :
    readObject strict item (printMembers members ++ '}' :: rest) =
      .ok (.object (memberDocuments members), rest) := by
  cases members with
  | nil => rfl
  | cons m ms =>
    obtain ⟨text, htext, hread⟩ := readMembers_print hitem (List.cons_ne_nil m ms) strict rest
    have hlength := length_le_length_printMembers (m :: ms)
    have hsame := congrArg List.length htext
    rw [List.length_append, List.length_cons, List.length_cons] at hsame
    rw [htext]
    change (readMembers strict item (text.length + 1) text).map _ = _
    rw [hread _ (by omega)]
    rfl

theorem rereads_of_readWith (h : ∀ nested?, Rereads (readWith strict nested?) v) (depth : Nat) :
    Rereads (readValue strict depth) v := by
  cases depth with
  | zero => exact h none
  | succ depth => exact h _

theorem readWith_of_isDigit {nested? : Option (Text → Result (Document × Text))}
    (h : c.isDigit = true) (rest : Text) :
    readWith strict nested? (c :: rest) = Number.read strict false (c :: rest) := by
  have hstart : Starts (c :: rest) := starts_of_isDigit h
  obtain ⟨-, -, -, hskip, -⟩ := hstart.exists_cons
  rw [readWith, hskip]
  split
  case h_1 he => cases he
  case h_9 he =>
    cases he
    rw [if_pos h]
  -- every other arm is for a character that is not a digit
  all_goals
    rename_i he
    cases he
    exact absurd h (by decide)

theorem whole64_natAbs {n : Int} (h : (Number.int n).Fits) :
    Numeral.whole64 (decide (n < 0)) n.natAbs = .int n := by
  obtain ⟨hlow, hhigh⟩ := h
  rw [Numeral.whole64]
  by_cases hn : n < 0
  · have hin : ¬ (n.natAbs = 0 ∨ Nat.pow 2 63 < n.natAbs) := by
      change ¬ (n.natAbs = 0 ∨ 2 ^ 63 < n.natAbs)
      omega
    simp only [hn, decide_true, Bool.not_true, Bool.false_eq_true, if_false]
    rw [if_neg (by simpa using hin)]
    congr 1
    omega
  · simp only [hn, decide_false, Bool.not_false, if_true]
    congr 1
    omega

theorem rereads_int {n : Int} (h : (Number.int n).Fits)
    (nested? : Option (Text → Result (Document × Text))) :
    Rereads (readWith strict nested?) (.number (.int n)) := by
  intro rest hrest
  have hlt : n.natAbs < 2 ^ 64 := by
    obtain ⟨hlow, hhigh⟩ := h
    omega
  have hread := Number.read_toDigits strict (decide (n < 0)) hlt hrest
  rw [whole64_natAbs h] at hread
  rw [print, Number.print]
  split
  next hn =>
    rw [decide_eq_true hn] at hread
    exact hread
  next hn =>
    rw [decide_eq_false hn] at hread
    obtain ⟨c, more, hdigits, hc⟩ := exists_digit n.natAbs
    rw [hdigits] at hread ⊢
    exact (readWith_of_isDigit hc _).trans hread

theorem rereads_string (text : Text) (nested? : Option (Text → Result (Document × Text))) :
    Rereads (readWith strict nested?) (.string text) := by
  intro rest _
  have htext : (string text).print ++ rest = '"' :: (text.flatMap escape ++ '"' :: rest) := by
    simp [print, printString]
  rw [htext]
  change (readString strict (text.flatMap escape ++ '"' :: rest)).map _ = _
  rw [readString_printed]
  rfl

theorem rereads_array {items : List Json}
    (hitem : ∀ v ∈ items, Rereads (readValue strict depth) v)
    (hstart : ∀ v ∈ items, Starts v.print) :
    Rereads (readValue strict (depth + 1)) (.array items) := by
  intro rest _
  have htext : (array items).print ++ rest = '[' :: (printItems items ++ ']' :: rest) := by
    simp [print]
  rw [htext]
  exact readList_print hitem hstart rest

theorem rereads_object {members : List (Text × Json)}
    (hitem : ∀ m ∈ members, Rereads (readValue strict depth) m.2) :
    Rereads (readValue strict (depth + 1)) (.object members) := by
  intro rest _
  have htext : (object members).print ++ rest = '{' :: (printMembers members ++ '}' :: rest) := by
    simp [print]
  rw [htext]
  exact readObject_print hitem strict rest

/-- A readable value without floats is read back from its compact text. -/
theorem Readable.rereads (h : Readable depth v) (hfree : v.floatFree = true) (strict : Bool) :
    Rereads (readValue strict depth) v := by
  induction h with
  | null => exact rereads_of_readWith (fun _ _ _ => rfl) _
  | @bool depth b =>
    cases b with
    | false => exact rereads_of_readWith (fun _ _ _ => rfl) _
    | true => exact rereads_of_readWith (fun _ _ _ => rfl) _
  | @number depth n hfits =>
    cases n with
    | float bits => cases hfree
    | int n => exact rereads_of_readWith (rereads_int hfits) _
  | string => exact rereads_of_readWith (rereads_string _) _
  | array _ ih =>
    have hitems := itemsFloatFree_iff.1 hfree
    exact rereads_array (fun v hv => ih v hv (hitems v hv)) fun v hv => starts_print (hitems v hv)
  | object _ _ ih =>
    have hmembers := membersFloatFree_iff.1 hfree
    exact rereads_object fun m hm => ih m hm (hmembers m hm)

theorem Readable.parse_print (h : Readable depthLimit v) (hfree : v.floatFree = true) :
    parse v.print = .ok v := by
  have hread := h.rereads hfree true [] (fun _ hc => by cases hc)
  rw [List.append_nil] at hread
  have hdocument : parseDocument true v.print = .ok v.document := by
    rw [parseDocument, if_pos rfl, hread]
    rfl
  rw [parse, hdocument]
  change Except.ok (v.document.value?.getD .null) = _
  rw [h.value?_document]
  rfl

/-- Different values without floats have different texts. -/
theorem Readable.eq_of_print_eq (h : Readable depthLimit v) (h' : Readable depthLimit v')
    (hfree : v.floatFree = true) (hfree' : v'.floatFree = true) (he : v'.print = v.print) :
    v' = v := by
  have hread := h'.parse_print hfree'
  rw [he, h.parse_print hfree] at hread
  exact (Except.ok.inj hread).symm

end DialogScript.Json
