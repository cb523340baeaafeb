import DialogScript.Proofs.Scan

/-!
The token lists that are read back from their own text. Tokenizing is the one way to cut a text into
such a list, so every slice of a tokenized text is read again as the tokens that it was made of.
-/

namespace DialogScript

/-- A text in which no tag closes. -/
def Quiet (text : Text) : Prop := (text.foldl Scan.step {}).tokens = []

/-- A text right behind which a tag can open. -/
def Leads (text : Text) : Prop :=
  (text ++ ['{', '{']).foldl Scan.step {} = { text := text.reverse, body? := some [] }

inductive Settled : List Token → Prop
  | nil : Settled []
  | literal (hne : text ≠ []) (hq : Quiet text) : Settled [.literal text]
  | tag (hb : IsBody body) (hrest : Settled rest) : Settled (.tag body :: rest)
  | literal_tag (hne : text ≠ []) (hl : Leads text) (hb : IsBody body) (hrest : Settled rest) :
      Settled (.literal text :: .tag body :: rest)

theorem leads_nil : Leads [] := rfl

theorem Leads.quiet (h : Leads text) : Quiet text := by
  have hs := Scan.tokens_suffix_foldl (text.foldl Scan.step {}) ['{', '{']
  rw [← List.foldl_append, h] at hs
  exact List.suffix_nil.1 hs

/-- Reading a body in an open tag leaves the tag open. -/
theorem Scan.foldl_body (ts : List Token) (t : Text) {b : Text} (hopen : b.NoPair '{')
    (hclose : b.NoPair '}') : b.foldl step ⟨ts, t, some []⟩ = ⟨ts, t, some b.reverse⟩ := by
  induction b using List.reverseRecOn with
  | nil => rfl
  | append_singleton b c ih =>
    obtain ⟨hopen, hc⟩ := Text.noPair_concat_iff.1 hopen
    obtain ⟨hclose, hc'⟩ := Text.noPair_concat_iff.1 hclose
    rw [← List.head?_reverse] at hc hc'
    have hm : Moves ⟨ts, t, some b.reverse⟩ c ⟨ts, t, some (c :: b.reverse)⟩ := .body hc' hc
    rw [List.foldl_append, ih hopen hclose, List.foldl_cons, List.foldl_nil, hm.eq_step,
      List.reverse_append]
    rfl

/-- A tag that has been opened is read up to its closing braces. -/
theorem Scan.foldl_tag (hs : ['{', '{'].foldl step s = ⟨ts, t, some []⟩) (hb : IsBody body) :
    (Token.tag body).raw.foldl step s = ⟨.tag body :: closeText ⟨ts, t, none⟩, [], none⟩ := by
  have hraw : (Token.tag body).raw = ['{', '{'] ++ (body ++ ['}']) ++ ['}'] := by
    simp [Token.raw]
  rw [hraw, List.foldl_append, List.foldl_append, hs,
    foldl_body _ _ hb.noOpen_concat hb.noClose, List.reverse_append]
  have hm : Moves ⟨ts, t, some ('}' :: body.reverse)⟩ '}' _ := .close
  rw [List.reverse_reverse] at hm
  exact hm.eq_step

/-- A tag is read as such behind a text that it can open behind. -/
theorem Leads.foldl_tag (h : Leads text) (hb : IsBody body) :
    (text ++ (Token.tag body).raw).foldl Scan.step {} =
      { tokens := .tag body :: Scan.closeText { text := text.reverse } } := by
  rw [Leads, List.foldl_append] at h
  rw [List.foldl_append, Scan.foldl_tag h hb]

namespace Scan

/-- What has been read since the last finished token. -/
def pending (s : Scan) : Text :=
  s.text.reverse ++
    match s.body? with
    | none => []
    | some body => '{' :: '{' :: body.reverse

theorem consumed_eq (s : Scan) : s.consumed = s.tokens.reverse.flatMap Token.raw ++ s.pending :=
  List.append_assoc _ _ _

theorem finish_eq (s : Scan) :
    s.finish = s.tokens.reverse ++ if s.pending = [] then [] else [.literal s.pending] := by
  have h (t : Text) : (closeText ⟨s.tokens, t, s.body?⟩).reverse =
      s.tokens.reverse ++ if t.reverse = [] then [] else [.literal t.reverse] := by
    cases t with
    | nil => simp [closeText]
    | cons c t => simp [closeText]
  obtain ⟨ts, t, body?⟩ := s
  cases body? with
  | none =>
    have hp : pending ⟨ts, t, none⟩ = t.reverse := List.append_nil _
    rw [hp]
    exact h t
  | some b =>
    have hp : pending ⟨ts, t, some b⟩ = (b ++ '{' :: '{' :: t).reverse := by simp [pending]
    rw [hp]
    exact h _

/-- Braces that open a tag do so behind anything that does not end in one. -/
theorem foldl_opening (s : Scan) (h : s.pending.getLast? ≠ some '{') :
    ['{', '{'].foldl step s = ⟨s.tokens, s.pending.reverse, some []⟩ := by
  obtain ⟨ts, t, body?⟩ := s
  cases body? with
  | none =>
    have hp : pending ⟨ts, t, none⟩ = t.reverse := List.append_nil _
    rw [hp, List.getLast?_reverse] at h
    have hm : Moves ⟨ts, t, none⟩ '{' ⟨ts, '{' :: t, none⟩ := .text fun hc => h hc.2
    rw [List.foldl_cons, hm.eq_step, hp, List.reverse_reverse]
    rfl
  | some b =>
    have hp : pending ⟨ts, t, some b⟩ = (b ++ '{' :: '{' :: t).reverse := by simp [pending]
    rw [hp, List.getLast?_reverse] at h
    have hb : b.head? ≠ some '{' := by
      intro hhead
      rw [List.head?_append, hhead] at h
      exact h rfl
    have hm : Moves ⟨ts, t, some b⟩ '{' ⟨ts, t, some ('{' :: b)⟩ :=
      .body (fun hc => absurd hc.1 (by decide)) fun hc => hb hc.2
    rw [List.foldl_cons, hm.eq_step, hp, List.reverse_reverse]
    rfl

theorem getLast?_pending_foldl {text : Text} (h : text.getLast? ≠ some '{') :
    (text.foldl step {}).pending.getLast? ≠ some '{' := by
  intro hp
  have hc : (text.foldl step {}).consumed = text := consumed_foldl {} text
  rw [consumed_eq] at hc
  rw [← hc, List.getLast?_append, hp] at h
  exact h rfl

/-- What is pending would leave the same scan if it stood at the start of a text. -/
def Replays (s : Scan) : Prop := s.pending.foldl step {} = { s with tokens := [] }

theorem Replays.concat {s s' : Scan} (h : s.Replays) (hp : s'.pending = s.pending ++ [c])
    (hm : Moves { s with tokens := [] } c { s' with tokens := [] }) : s'.Replays := by
  rw [Replays, hp, List.foldl_append, h]
  exact hm.eq_step

theorem Replays.leads (h : Replays ⟨ts, t, some []⟩) : Leads t.reverse := by
  rw [Leads, List.reverse_reverse]
  exact h

/-- What holds of a scan that began at the start of a text: its tokens are settled in front of
others that are, and an open tag holds the beginning of a body. -/
structure Reached (s : Scan) : Prop where
  settled : ∀ {rest}, Settled rest → Settled (s.tokens.reverse ++ rest)
  replays : s.Replays
  leads : ∀ {b}, s.body? = some b → Leads s.text.reverse
  body : ∀ {b}, s.body? = some b → Text.NoPair '{' b.reverse ∧ Text.NoPair '}' b.reverse

theorem reached_start : Reached {} where
  settled h := h
  replays := rfl
  leads h := by cases h
  body h := by cases h

theorem Reached.opened (h : Reached s) (hr : Replays ⟨s.tokens, t, some b⟩)
    (hl : Leads t.reverse) (hopen : Text.NoPair '{' b.reverse)
    (hclose : Text.NoPair '}' b.reverse) : Reached ⟨s.tokens, t, some b⟩ where
  settled := h.settled
  replays := hr
  leads _ := hl
  body hb := by
    cases hb
    exact ⟨hopen, hclose⟩

theorem reached_of_body?_none {s : Scan} (hs : ∀ {rest}, Settled rest →
    Settled (s.tokens.reverse ++ rest)) (hr : s.Replays) (hnone : s.body? = none) :
    Reached s where
  settled := hs
  replays := hr
  leads hb := by
    rw [hnone] at hb
    cases hb
  body hb := by
    rw [hnone] at hb
    cases hb

theorem Reached.move (h : Reached s) (hm : Moves s c s') : Reached s' := by
  cases hm with
  | @enter ts t =>
    have hr : Replays ⟨ts, t, some []⟩ := h.replays.concat (by simp [pending]) .enter
    exact h.opened hr hr.leads (Text.noPair_nil _) (Text.noPair_nil _)
  | @text c ts t hc =>
    have hr : Replays ⟨ts, c :: t, none⟩ := h.replays.concat (by simp [pending]) (.text hc)
    exact reached_of_body?_none h.settled hr rfl
  | @close ts t b =>
    obtain ⟨hopen, hclose⟩ := h.body rfl
    rw [List.reverse_cons] at hopen hclose
    have hb : IsBody b.reverse := ⟨hopen.left, hclose⟩
    have hr : Replays ⟨.tag b.reverse :: closeText ⟨ts, t, none⟩, [], none⟩ := rfl
    apply reached_of_body?_none ?_ hr rfl
    intro rest hrest
    cases t with
    | nil =>
      have hs := h.settled (.tag hb hrest)
      rwa [List.append_cons, ← List.reverse_cons] at hs
    | cons c t =>
      have hs := h.settled (.literal_tag (by simp) (h.leads rfl) hb hrest)
      rwa [List.append_cons, ← List.reverse_cons, List.append_cons, ← List.reverse_cons] at hs
  | @restart ts t b =>
    have hr : Replays ⟨ts, b ++ '{' :: '{' :: t, some []⟩ :=
      h.replays.concat (by simp [pending]) .restart
    exact h.opened hr hr.leads (Text.noPair_nil _) (Text.noPair_nil _)
  | @body c ts t b hclose hopen =>
    have hr : Replays ⟨ts, t, some (c :: b)⟩ :=
      h.replays.concat (by simp [pending]) (.body hclose hopen)
    obtain ⟨ho, hc⟩ := h.body rfl
    rw [← List.getLast?_reverse] at hclose hopen
    apply h.opened hr (h.leads rfl)
    · rw [List.reverse_cons]
      exact Text.noPair_concat_iff.2 ⟨ho, hopen⟩
    · rw [List.reverse_cons]
      exact Text.noPair_concat_iff.2 ⟨hc, hclose⟩

theorem Reached.foldl (h : Reached s) (text : Text) : Reached (text.foldl step s) := by
  induction text generalizing s with
  | nil => exact h
  | cons c rest ih => exact ih (h.move (moves_step s c))

theorem Reached.settled_finish (h : Reached s) : Settled s.finish := by
  rw [finish_eq]
  apply h.settled
  split
  · exact .nil
  · rename_i hne
    have hq : Quiet s.pending := by
      rw [Quiet, h.replays]
    exact .literal hne hq

theorem foldl_start_behind (earlier : List Token) (text : Text) :
    (text.foldl step { tokens := earlier }).finish = earlier.reverse ++ tokenize text := by
  have h := foldl_behind earlier {} text
  rw [behind, List.nil_append] at h
  rw [h, finish_behind]
  rfl

end Scan

theorem settled_tokenize (text : Text) : Settled (tokenize text) :=
  (Scan.reached_start.foldl text).settled_finish

theorem Quiet.tokenize (hne : text ≠ []) (hq : Quiet text) :
    tokenize text = [.literal text] := by
  have hp : (text.foldl Scan.step {}).pending = text := by
    have hc := Scan.consumed_foldl {} text
    rw [Scan.consumed_eq, hq] at hc
    exact hc
  rw [DialogScript.tokenize, Scan.finish_eq, hq, hp, if_neg hne]
  rfl

theorem IsBody.tokenize_tag_append (hb : IsBody body) (text : Text) :
    tokenize ((Token.tag body).raw ++ text) = .tag body :: tokenize text := by
  have h := leads_nil.foldl_tag hb
  rw [List.nil_append] at h
  rw [tokenize, List.foldl_append, h]
  exact Scan.foldl_start_behind [.tag body] text

theorem IsBody.tokenize_tag (hb : IsBody body) : tokenize (Token.tag body).raw = [.tag body] := by
  have h := hb.tokenize_tag_append []
  rw [List.append_nil] at h
  exact h

/-- A tag is read as such behind any text that does not end in an opening brace. -/
theorem IsBody.tokenize_append_tag (hb : IsBody body) (hlast : text.getLast? ≠ some '{')
    (rest : Text) : tokenize (text ++ ((Token.tag body).raw ++ rest)) =
      tokenize text ++ .tag body :: tokenize rest := by
  have hopen := Scan.foldl_opening _ (Scan.getLast?_pending_foldl hlast)
  have hclose : Scan.closeText ⟨(text.foldl Scan.step {}).tokens,
      (text.foldl Scan.step {}).pending.reverse, none⟩ = (tokenize text).reverse := by
    rw [tokenize, Scan.finish_eq, Scan.closeText]
    by_cases hp : (text.foldl Scan.step {}).pending = []
    · simp [hp]
    · simp [hp]
  rw [tokenize, List.foldl_append, List.foldl_append, Scan.foldl_tag hopen hb, hclose,
    Scan.foldl_start_behind, List.reverse_cons, List.reverse_reverse, List.append_assoc]
  rfl

theorem Leads.tokenize_literal_tag_append (hne : text ≠ []) (hl : Leads text) (hb : IsBody body)
    (rest : Text) :
    tokenize (text ++ ((Token.tag body).raw ++ rest)) =
      .literal text :: .tag body :: tokenize rest := by
  have hclose : Scan.closeText { text := text.reverse } = [.literal text] := by
    rw [Scan.closeText, if_neg (by simpa using hne), List.reverse_reverse]
  rw [← List.append_assoc, tokenize, List.foldl_append, hl.foldl_tag hb, hclose]
  exact Scan.foldl_start_behind [.tag body, .literal text] rest

theorem Settled.tokenize (h : Settled tokens) : tokenize (tokens.flatMap Token.raw) = tokens := by
  induction h with
  | nil => rfl
  | @literal text hne hq =>
    rw [List.flatMap_singleton]
    exact hq.tokenize hne
  | tag hb hrest ih => rw [List.flatMap_cons, hb.tokenize_tag_append, ih]
  | literal_tag hne hl hb hrest ih =>
    rw [List.flatMap_cons, List.flatMap_cons]
    exact (hl.tokenize_literal_tag_append hne hb _).trans (by rw [ih])

/-- The tokens of a text are the one settled list with that text. -/
theorem tokenize_eq_iff :
    tokenize text = tokens ↔ Settled tokens ∧ tokens.flatMap Token.raw = text := by
  constructor
  · rintro rfl
    exact ⟨settled_tokenize text, flatMap_raw_tokenize text⟩
  · rintro ⟨h, rfl⟩
    exact h.tokenize

theorem Settled.tail (h : Settled (token :: rest)) : Settled rest := by
  cases h with
  | literal => exact .nil
  | tag hb hrest => exact hrest
  | literal_tag hne hl hb hrest => exact .tag hb hrest

theorem Settled.right {a b : List Token} (h : Settled (a ++ b)) : Settled b := by
  induction a with
  | nil => exact h
  | cons token a ih => exact ih h.tail

theorem Settled.left {a b : List Token} (h : Settled (a ++ b)) : Settled a := by
  generalize ht : a ++ b = tokens at h
  induction h generalizing a with
  | nil =>
    rw [(List.append_eq_nil_iff.1 ht).1]
    exact .nil
  | literal hne hq =>
    rcases List.append_eq_singleton_iff.1 ht with ⟨rfl, -⟩ | ⟨rfl, -⟩
    · exact .nil
    · exact .literal hne hq
  | tag hb hrest ih =>
    rcases List.append_eq_cons_iff.1 ht with ⟨rfl, -⟩ | ⟨a, rfl, ha⟩
    · exact .nil
    · exact .tag hb (ih ha.symm)
  | literal_tag hne hl hb hrest ih =>
    rcases List.append_eq_cons_iff.1 ht with ⟨rfl, -⟩ | ⟨a, rfl, ha⟩
    · exact .nil
    · rcases List.append_eq_cons_iff.1 ha.symm with ⟨rfl, -⟩ | ⟨a, rfl, hr⟩
      -- the cut is between the run and its tag, which makes the run the last one
      · exact .literal hne hl.quiet
      · exact .literal_tag hne hl hb (ih hr.symm)

end DialogScript
