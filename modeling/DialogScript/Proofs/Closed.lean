import DialogScript.Knowledge
import DialogScript.Message.Section
import DialogScript.Placeholder
import DialogScript.Proofs.Settled
import Mathlib.Data.List.Basic

/-!
Texts whose reading does not depend on what comes behind them. What is read off the tokens of such a
text and of any text behind it is read off each of the two.
-/

namespace DialogScript

namespace Token

/-- Puts a token in front of others; a literal run joins the run that it meets. -/
def push : Token → List Token → List Token
  | .literal text, .literal next :: rest => .literal (text ++ next) :: rest
  | .literal text, tokens => if text = [] then tokens else .literal text :: tokens
  | .tag body, tokens => .tag body :: tokens

theorem push_literal_nil (tokens : List Token) : push (.literal []) tokens = tokens := by
  cases tokens with
  | nil => rfl
  | cons token rest => cases token <;> rfl

theorem push_literal_append (a b : Text) (tokens : List Token) :
    push (.literal (a ++ b)) tokens = push (.literal a) (push (.literal b) tokens) := by
  by_cases hb : b = []
  · rw [hb, List.append_nil, push_literal_nil]
  · have hab : a ++ b ≠ [] := fun h => hb (List.append_eq_nil_iff.1 h).2
    cases tokens with
    | nil => simp [push, hb]
    | cons token rest =>
      cases token with
      | literal next => simp [push]
      | tag body => simp [push, hb]

theorem push_literal_cases (text : Text) (tokens : List Token) :
    (text = [] ∧ push (.literal text) tokens = tokens) ∨
      push (.literal text) tokens = .literal text :: tokens ∨
      ∃ next rest, tokens = .literal next :: rest ∧
        push (.literal text) tokens = .literal (text ++ next) :: rest := by
  by_cases h : text = []
  · rw [h]
    exact .inl ⟨rfl, push_literal_nil tokens⟩
  · cases tokens with
    | nil => exact .inr (.inl (if_neg h))
    | cons token rest =>
      cases token with
      | literal next => exact .inr (.inr ⟨next, rest, rfl, rfl⟩)
      | tag body => exact .inr (.inl (if_neg h))

theorem foldr_push_push (token : Token) (a b : List Token) :
    (token.push a).foldr push b = token.push (a.foldr push b) := by
  cases token with
  | tag body => rfl
  | literal text =>
    rcases push_literal_cases text a with ⟨rfl, h⟩ | h | ⟨next, rest, rfl, h⟩
    · rw [h, push_literal_nil]
    · rw [h, List.foldr_cons]
    · rw [h, List.foldr_cons, push_literal_append, List.foldr_cons]

theorem foldr_push_append (a b c : List Token) :
    (a.foldr push b).foldr push c = a.foldr push (b.foldr push c) := by
  induction a with
  | nil => rfl
  | cons token a ih => rw [List.foldr_cons, foldr_push_push, ih, List.foldr_cons]

/-- What is read off tokens does not see where literal runs meet, if it splits over them. -/
theorem flatMap_push (f : Token → List α)
    (hf : ∀ a b, f (.literal (a ++ b)) = f (.literal a) ++ f (.literal b)) (token : Token)
    (tokens : List Token) : (token.push tokens).flatMap f = f token ++ tokens.flatMap f := by
  have hnil : f (.literal []) = [] := List.self_eq_append_left.1 (hf [] [])
  cases token with
  | tag body => rfl
  | literal text =>
    rcases push_literal_cases text tokens with ⟨rfl, h⟩ | h | ⟨next, rest, rfl, h⟩
    · rw [h, hnil, List.nil_append]
    · rw [h, List.flatMap_cons]
    · rw [h, List.flatMap_cons, hf, List.append_assoc, List.flatMap_cons]

theorem flatMap_foldr_push (f : Token → List α)
    (hf : ∀ a b, f (.literal (a ++ b)) = f (.literal a) ++ f (.literal b)) (a b : List Token) :
    (a.foldr push b).flatMap f = a.flatMap f ++ b.flatMap f := by
  induction a with
  | nil => rfl
  | cons token a ih =>
    rw [List.foldr_cons, flatMap_push f hf, ih, List.flatMap_cons, List.append_assoc]

end Token

/-- What follows the text does not change how the text is read. -/
def Closed (text : Text) : Prop :=
  ∀ next, tokenize (text ++ next) = (tokenize text).foldr Token.push (tokenize next)

theorem closed_nil : Closed [] := fun _ => rfl

theorem Closed.append (ha : Closed a) (hb : Closed b) : Closed (a ++ b) := by
  intro next
  rw [List.append_assoc, ha, hb, ha, Token.foldr_push_append]

theorem IsBody.closed (hb : IsBody body) : Closed (Token.tag body).raw := by
  intro next
  rw [hb.tokenize_tag_append, hb.tokenize_tag]
  rfl

namespace Scan

theorem foldl_noOpen {t : Text} (h : t.NoPair '{') : t.foldl step {} = { text := t.reverse } := by
  induction t using List.reverseRecOn with
  | nil => rfl
  | append_singleton t c ih =>
    obtain ⟨ht, hc⟩ := Text.noPair_concat_iff.1 h
    rw [← List.head?_reverse] at hc
    have hm : Moves ⟨[], t.reverse, none⟩ c ⟨[], c :: t.reverse, none⟩ := .text hc
    rw [List.foldl_append, ih ht, List.foldl_cons, List.foldl_nil, hm.eq_step, List.reverse_append]
    rfl

/-- The same scan with more literal text in front. -/
def under (front : Text) (s : Scan) : Scan := { s with text := s.text ++ front }

theorem Moves.under (h : Moves s c s') (hs : s'.tokens = []) {front : Text}
    (hf : front.head? ≠ some '{') : Moves (s.under front) c (s'.under front) := by
  cases h with
  | enter => exact .enter
  | @text c ts t h =>
    apply Moves.text
    intro hc
    obtain ⟨rfl, ht⟩ := hc
    cases t with
    | nil => exact hf ht
    | cons d t => exact h ⟨rfl, ht⟩
  | close => cases hs
  | @restart ts t b =>
    have hm : Moves ⟨ts, t ++ front, some ('{' :: b)⟩ '{' _ := .restart
    rw [← List.cons_append, ← List.cons_append, ← List.append_assoc] at hm
    exact hm
  | body hclose hopen => exact .body hclose hopen

theorem foldl_under {front : Text} (hf : front.head? ≠ some '{') (h : Quiet t) :
    t.foldl step { text := front } = (t.foldl step {}).under front := by
  induction t using List.reverseRecOn with
  | nil => rfl
  | append_singleton t c ih =>
    rw [Quiet, List.foldl_append] at h
    have hs := tokens_suffix_step (t.foldl step {}) c
    have ht : Quiet t := by
      rw [List.foldl_cons, List.foldl_nil] at h
      rw [h] at hs
      exact List.suffix_nil.1 hs
    rw [List.foldl_append, ih ht, List.foldl_append]
    exact ((moves_step _ c).under h hf).eq_step

end Scan

/-- A literal run that nothing behind it can make part of a tag. -/
structure Plain (text : Text) : Prop where
  noOpen : text.NoPair '{'
  last : text.getLast? ≠ some '{'

theorem Plain.foldl_append (h : Plain text) (hq : Quiet next) :
    (text ++ next).foldl Scan.step {} = (next.foldl Scan.step {}).under text.reverse := by
  have hf := h.last
  rw [← List.head?_reverse] at hf
  rw [List.foldl_append, Scan.foldl_noOpen h.noOpen, Scan.foldl_under hf hq]

theorem Quiet.of_plain_append (hq : Quiet next) (h : Plain text) : Quiet (text ++ next) := by
  rw [Quiet, h.foldl_append hq]
  exact hq

theorem Leads.of_plain_append (hl : Leads next) (h : Plain text) : Leads (text ++ next) := by
  have hq : Quiet (next ++ ['{', '{']) := by
    rw [Quiet, hl]
  rw [Leads, List.append_assoc, h.foldl_append hq, hl, Scan.under, List.reverse_append]

theorem Settled.push_plain (hs : Settled tokens) (h : Plain text) :
    Settled (Token.push (.literal text) tokens) := by
  by_cases hne : text = []
  · rw [hne, Token.push_literal_nil]
    exact hs
  · have hleads : Leads text := by
      have hl := leads_nil.of_plain_append h
      rwa [List.append_nil] at hl
    have happend {next : Text} : text ++ next ≠ [] := by simp [hne]
    cases hs with
    | nil =>
      have he : Token.push (.literal text) [] = [.literal text] := if_neg hne
      rw [he]
      exact .literal hne hleads.quiet
    | literal _ hq => exact .literal happend (hq.of_plain_append h)
    | @tag body rest hb hrest =>
      have he : Token.push (.literal text) (.tag body :: rest) =
          .literal text :: .tag body :: rest := if_neg hne
      rw [he]
      exact .literal_tag hne hleads hb hrest
    | literal_tag _ hl hb hrest => exact .literal_tag happend (hl.of_plain_append h) hb hrest

theorem Plain.tokenize_append (h : Plain text) (next : Text) :
    tokenize (text ++ next) = Token.push (.literal text) (tokenize next) := by
  rw [tokenize_eq_iff, Token.flatMap_push Token.raw fun _ _ => rfl, flatMap_raw_tokenize]
  exact ⟨(settled_tokenize next).push_plain h, rfl⟩

theorem Plain.closed (h : Plain text) : Closed text := by
  intro next
  have he := h.tokenize_append []
  rw [List.append_nil] at he
  rw [h.tokenize_append, he]
  exact (Token.foldr_push_push (.literal text) [] (tokenize next)).symm

theorem Closed.resolveWith_append (h : Closed text) (meaning : Text → Text) (next : Text) :
    Placeholder.resolveWith meaning (text ++ next) =
      Placeholder.resolveWith meaning text ++ Placeholder.resolveWith meaning next := by
  rw [Placeholder.resolveWith, h]
  exact Token.flatMap_foldr_push _ (fun _ _ => rfl) _ _

namespace Sections

theorem addText_append (s : Sections) (a b : Text) :
    s.addText (a ++ b) = (s.addText a).addText b := by
  cases h : s.current? with
  | none => simp [addText, h]
  | some current => simp [addText, h]

theorem addText_nil (s : Sections) : s.addText [] = s := by
  obtain ⟨messages, outside, current?⟩ := s
  cases current? with
  | none => simp [addText]
  | some current => simp [addText]

theorem step_literal (s : Sections) (text : Text) :
    s.step (.literal text) = some (s.addText text) := rfl

theorem foldlM_push (s : Sections) (token : Token) (tokens : List Token) :
    (token.push tokens).foldlM step s = (token :: tokens).foldlM step s := by
  cases token with
  | tag body => rfl
  | literal text =>
    rcases Token.push_literal_cases text tokens with ⟨rfl, h⟩ | h | ⟨next, rest, rfl, h⟩
    · rw [h, List.foldlM_cons, step_literal, addText_nil]
      rfl
    · rw [h]
    · rw [h, List.foldlM_cons, List.foldlM_cons, step_literal, step_literal, addText_append]
      rfl

theorem foldlM_foldr_push (s : Sections) (a b : List Token) :
    (a.foldr Token.push b).foldlM step s = (a ++ b).foldlM step s := by
  induction a generalizing s with
  | nil => rfl
  | cons token a ih =>
    rw [List.foldr_cons, foldlM_push, List.foldlM_cons, List.cons_append, List.foldlM_cons]
    simp only [ih]

end Sections

end DialogScript
