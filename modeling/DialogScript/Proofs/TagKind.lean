import DialogScript.Block.Break
import DialogScript.Knowledge
import DialogScript.Message.Section
import DialogScript.Placeholder
import DialogScript.Proofs.Blank
import Mathlib.Data.List.Basic

/-!
A tag body is read by at most one of the grammars of tags: the first two characters that trimming
leaves tell which one that can be.
-/

namespace DialogScript

theorem Placeholder.trim_of_name? (h : Placeholder.name? body = some name) :
    ∃ c rest, body.trim = c :: rest ∧ c ≠ '#' ∧ c ≠ '/' := by
  simp only [name?] at h
  split at h
  · cases h
  · rename_i c rest ht
    split at h
    · rename_i hc
      simp only [Bool.and_eq_true, decide_eq_true_eq, ne_eq] at hc
      exact ⟨c, rest, ht, hc.1.1, hc.1.2⟩
    · cases h

/-- A directive's keyword is still in front of what trimming leaves. -/
theorem Directive.trim_of_arguments? (h : Directive.arguments? (c :: keyword) body = some args)
    (hc : isBlank c = false) : ∃ rest, body.trim = '#' :: c :: rest := by
  simp only [arguments?] at h
  split at h
  · rename_i rest hs
    cases hp : (c :: keyword).isPrefixOf? rest with
    | none =>
      rw [hp] at h
      cases h
    | some tail =>
      have hrest := List.append_eq_of_isPrefixOf?_eq_some hp
      obtain ⟨b, hb, hblank⟩ := Text.exists_trimStart_eq body
      have hhash : '#' ∉ b := hblank.notMem rfl
      have hfirst : c ∉ b := hblank.notMem hc
      rw [hs, ← hrest] at hb
      rcases List.append_eq_cons_iff.1 hb.symm with ⟨-, rfl⟩ | ⟨t, ht, ht'⟩
      · exact (hhash List.mem_cons_self).elim
      · rcases List.append_eq_cons_iff.1 ht'.symm with ⟨-, rfl⟩ | ⟨u, rfl, -⟩
        · exact (hfirst List.mem_cons_self).elim
        · exact ⟨u, ht⟩
  · cases h

theorem RoleMarker.trim_of_read? (h : RoleMarker.read? body = some marker) :
    body.trim = "/role".toList ∨ ∃ rest, body.trim = '#' :: 'r' :: rest := by
  rw [read?] at h
  split at h
  · rename_i hclosing
    exact .inl hclosing
  · obtain ⟨rest, hprefix, -⟩ := Option.map_eq_some_iff.1 h
    exact .inr ⟨"ole=".toList ++ rest, (List.append_eq_of_isPrefixOf?_eq_some hprefix).symm⟩

theorem Knowledge.exists_arguments (h : filters? body = some filters) :
    ∃ args, arguments? body = some args := by
  rw [filters?] at h
  split at h
  · rename_i args hargs
    exact ⟨args, hargs⟩
  · cases h

/-- What a tag can be, by the grammar that its body follows. -/
inductive TagKind
  | placeholder
  | blockBreak
  | knowledge
  | role
deriving DecidableEq, Repr

namespace TagKind

def fits : TagKind → Text → Bool
  | placeholder, body => (Placeholder.name? body).isSome
  | blockBreak, body => (Break.arguments? body).isSome
  | knowledge, body => (Knowledge.arguments? body).isSome
  | role, body => (RoleMarker.read? body).isSome

/-- The one kind that a trimmed body can be of, by its first characters. -/
def ofStart? : Text → Option TagKind
  | [] => none
  | '/' :: _ => some role
  | '#' :: 'b' :: _ => some blockBreak
  | '#' :: 'k' :: _ => some knowledge
  | '#' :: _ => some role
  | _ :: _ => some placeholder

theorem ofStart?_of_fits {k : TagKind} (h : k.fits body) : ofStart? body.trim = some k := by
  cases k with
  | placeholder =>
    obtain ⟨name, hname⟩ := Option.isSome_iff_exists.1 h
    obtain ⟨c, rest, ht, hhash, hslash⟩ := Placeholder.trim_of_name? hname
    rw [ht]
    unfold ofStart?
    split <;> simp_all
  | blockBreak =>
    obtain ⟨args, hargs⟩ := Option.isSome_iff_exists.1 h
    obtain ⟨rest, ht⟩ : ∃ rest, body.trim = '#' :: 'b' :: rest :=
      Directive.trim_of_arguments? hargs rfl
    rw [ht]
    rfl
  | knowledge =>
    obtain ⟨args, hargs⟩ := Option.isSome_iff_exists.1 h
    obtain ⟨rest, ht⟩ : ∃ rest, body.trim = '#' :: 'k' :: rest :=
      Directive.trim_of_arguments? hargs rfl
    rw [ht]
    rfl
  | role =>
    obtain ⟨marker, hmarker⟩ := Option.isSome_iff_exists.1 h
    rcases RoleMarker.trim_of_read? hmarker with ht | ⟨rest, ht⟩
    · rw [ht]
      rfl
    · rw [ht]
      rfl

theorem eq_of_fits {k k' : TagKind} (h : k.fits body) (h' : k'.fits body) : k = k' :=
  Option.some_inj.1 ((ofStart?_of_fits h).symm.trans (ofStart?_of_fits h'))

theorem fits_placeholder (h : Placeholder.name? body = some name) : placeholder.fits body :=
  Option.isSome_of_eq_some h

theorem fits_blockBreak (h : Break.read? body = some b) : blockBreak.fits body := by
  obtain ⟨args, hargs, -⟩ := Option.bind_eq_some_iff.1 h
  exact Option.isSome_of_eq_some hargs

theorem fits_knowledge (h : Knowledge.filters? body = some filters) : knowledge.fits body := by
  obtain ⟨args, hargs⟩ := Knowledge.exists_arguments h
  exact Option.isSome_of_eq_some hargs

theorem fits_role (h : RoleMarker.read? body = some marker) : role.fits body :=
  Option.isSome_of_eq_some h

/-- A reader of bodies of one kind reads none of another. -/
theorem eq_none_of_fits {reader : Text → Option α} {k k' : TagKind} (h : k.fits body)
    (hreader : ∀ found, reader body = some found → k'.fits body) (hne : k ≠ k') :
    reader body = none := by
  by_contra hsome
  obtain ⟨found, hfound⟩ := Option.ne_none_iff_exists'.1 hsome
  exact hne (eq_of_fits h (hreader found hfound))

end TagKind

theorem Knowledge.filters?_of_name? (h : Placeholder.name? body = some name) :
    Knowledge.filters? body = none :=
  TagKind.eq_none_of_fits (TagKind.fits_placeholder h) (fun _ => TagKind.fits_knowledge) nofun

theorem RoleMarker.read?_of_name? (h : Placeholder.name? body = some name) :
    RoleMarker.read? body = none :=
  TagKind.eq_none_of_fits (TagKind.fits_placeholder h) (fun _ => TagKind.fits_role) nofun

theorem RoleMarker.read?_of_filters? (h : Knowledge.filters? body = some filters) :
    RoleMarker.read? body = none :=
  TagKind.eq_none_of_fits (TagKind.fits_knowledge h) (fun _ => TagKind.fits_role) nofun

end DialogScript
