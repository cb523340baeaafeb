import DialogScript.Token

/-! Tokens cut behind each tag that a reader of tag bodies reads. -/

namespace DialogScript

/-- The reader finds nothing in any of the tokens. -/
def Unread (reader : Text → Option α) (tokens : List Token) : Prop :=
  ∀ token ∈ tokens, token.read? reader = none

theorem unread_nil (reader : Text → Option α) : Unread reader [] := by
  intro token ht
  cases ht

theorem Unread.cons {reader : Text → Option α} (ht : token.read? reader = none)
    (h : Unread reader tokens) : Unread reader (token :: tokens) := by
  rw [Unread, List.forall_mem_cons]
  exact ⟨ht, h⟩

/-- A tag that is read, with the tokens in front of it and what is read there. -/
structure Stretch (α : Type) where
  before : List Token
  body : Text
  found : α

namespace Stretch

def tokens (p : Stretch α) : List Token := p.before ++ [.tag p.body]

/-- The tag is the first that the reader reads. -/
structure Valid (reader : Text → Option α) (p : Stretch α) : Prop where
  unread : Unread reader p.before
  reads : reader p.body = some p.found

theorem Valid.filterMap_tokens {p : Stretch α} (h : p.Valid reader) :
    p.tokens.filterMap (Token.read? reader) = [p.found] := by
  rw [tokens, List.filterMap_append, List.filterMap_eq_nil_iff.2 h.unread, List.nil_append]
  exact List.filterMap_cons_some h.reads

end Stretch

/-- Tokens are stretches and a rest in which nothing is read. -/
theorem exists_stretches (reader : Text → Option α) (tokens : List Token) :
    ∃ (stretches : List (Stretch α)) (last : List Token),
      tokens = stretches.flatMap Stretch.tokens ++ last ∧
      (∀ p ∈ stretches, p.Valid reader) ∧ Unread reader last := by
  induction tokens with
  | nil => exact ⟨[], [], rfl, by simp, unread_nil reader⟩
  | cons token rest ih =>
    obtain ⟨stretches, last, rfl, hvalid, hlast⟩ := ih
    cases hr : token.read? reader with
    | some found =>
      obtain ⟨body, rfl⟩ : ∃ body, token = .tag body := by
        cases token with
        | literal text => cases hr
        | tag body => exact ⟨body, rfl⟩
      refine ⟨⟨[], body, found⟩ :: stretches, last, rfl, ?_, hlast⟩
      rw [List.forall_mem_cons]
      exact ⟨⟨unread_nil reader, hr⟩, hvalid⟩
    | none =>
      cases stretches with
      | nil => exact ⟨[], token :: last, rfl, hvalid, hlast.cons hr⟩
      | cons p stretches =>
        rw [List.forall_mem_cons] at hvalid
        refine ⟨{ p with before := token :: p.before } :: stretches, last, rfl, ?_, hlast⟩
        rw [List.forall_mem_cons]
        exact ⟨⟨hvalid.1.unread.cons hr, hvalid.1.reads⟩, hvalid.2⟩

end DialogScript
