import DialogScript.Proofs.Retrieval
import DialogScript.Proofs.SectionFill
import DialogScript.Proofs.Turn

/-!
Which names are read. Rendering a block looks at the names that stand in its template and in the
passages retrieved for it, and at no name that only a value mentions.
-/

namespace DialogScript

namespace Placeholder

/-- Two meanings of names put the same text for each name that a text refers to. -/
def Agree (m m' : Text → Text) (text : Text) : Prop := ∀ name ∈ referenced text, m name = m' name

theorem Agree.resolveWith_eq {m m' : Text → Text} (h : Agree m m' text) :
    resolveWith m text = resolveWith m' text := by
  apply List.flatMap_congr
  intro token ht
  rw [fill, fill]
  cases hn : token.read? name? with
  | none => rfl
  | some name => exact h name (mem_referenced ht hn)

end Placeholder

namespace Setting

/-- Passages that were given to one of the lookups made from one point of a run to another. -/
def Retrieves (s : Setting) (start stop : List Filters) (passages : List Text) : Prop :=
  ∃ earlier filters, start <+: earlier ∧ earlier ++ [filters] <+: stop ∧
    s.Answers earlier filters passages

theorem Retrieves.later {s : Setting} (h : s.Retrieves mid stop passages)
    (hmid : start <+: mid) : s.Retrieves start stop passages := by
  obtain ⟨earlier, filters, hearlier, hstop, hanswers⟩ := h
  exact ⟨earlier, filters, hmid.trans hearlier, hstop, hanswers⟩

theorem splice_of_agree {s : Setting} {bag bag' : Bag} {defaults' : Table Text}
    {lookups : List Filters} {segments : List Segment}
    (h : ∀ passages, s.Retrieves lookups (s.splice bag lookups segments).1 passages →
      Placeholder.Agree (Placeholder.meaning bag s.defaults) (Placeholder.meaning bag' defaults')
        (s.separator.intercalate passages)) :
    { s with defaults := defaults' }.splice bag' lookups segments =
      s.splice bag lookups segments := by
  induction segments generalizing lookups with
  | nil => rfl
  | cons segment rest ih =>
    cases segment with
    | text t =>
      rw [splice_text] at h
      rw [splice_text, splice_text, ih h]
    | query q =>
      have hretrieve : { s with defaults := defaults' }.retrieve lookups q =
          s.retrieve lookups q := rfl
      rw [splice_query, splice_query, hretrieve]
      rw [splice_query] at h
      rcases s.retrieve_cases lookups q with ⟨passages, hanswers, hr⟩ | ⟨made, cause, -, hr⟩
      · rw [hr] at h
        rw [hr]
        -- the passages come from the first of the lookups, and the others follow it
        have hlater := s.lookups_prefix_splice bag (lookups ++ [q.filters]) rest
        have hjoined := h passages ⟨lookups, q.filters, List.prefix_rfl, hlater, hanswers⟩
        have hrest := ih fun passages hp => h passages (hp.later (List.prefix_append _ _))
        have hresolve : Placeholder.resolve bag' defaults' (s.separator.intercalate passages) =
            Placeholder.resolve bag s.defaults (s.separator.intercalate passages) :=
          hjoined.resolveWith_eq.symm
        dsimp only
        rw [hrest, hresolve]
      · rw [hr]

/-- Rendering reads no name but those that the template or retrieved passages refer to: where two
bags and defaults agree on these, it makes the same lookups with the same result. -/
theorem render_of_agree (s : Setting) (bag bag' : Bag) (defaults' : Table Text)
    (lookups : List Filters) (b : Block)
    (htemplate : ∀ name ∈ Placeholder.referenced b.template,
      Placeholder.meaning bag s.defaults name = Placeholder.meaning bag' defaults' name)
    (hpassages : ∀ passages, s.Retrieves lookups (s.render bag lookups b).1 passages →
      ∀ name ∈ Placeholder.referenced (s.separator.intercalate passages),
        Placeholder.meaning bag s.defaults name = Placeholder.meaning bag' defaults' name) :
    { s with defaults := defaults' }.render bag' lookups b = s.render bag lookups b := by
  have hresolve : Placeholder.resolve bag' defaults' b.template =
      Placeholder.resolve bag s.defaults b.template :=
    (Placeholder.Agree.resolveWith_eq htemplate).symm
  rw [render_eq_splice] at hpassages
  rw [render_eq_splice, render_eq_splice, hresolve]
  exact splice_of_agree hpassages

/-- The law where a value names an entry that differs and a passage names one that does not. -/
theorem render_of_agree_mention :
    let mention := "Tell ".toList ++ (Token.tag "secret".toList).raw
    let source : KnowledgeSource := fun _ _ => .ok [(Token.tag "days".toList).raw]
    let s : Setting := {
      generator := .echo []
      source? := some source
      defaults := [("days".toList, "30".toList), ("secret".toList, "x".toList)] }
    let bag : Bag := [("q".toList, .text mention)]
    let bag' : Bag := ("secret".toList, .text "y".toList) :: bag
    let defaults' := [("days".toList, "30".toList)]
    let b : Block := .trailing
      ((Token.tag "q".toList).raw ++ (Token.tag "#knowledgebase id=a".toList).raw)
    (∀ name ∈ Placeholder.referenced b.template,
      Placeholder.meaning bag s.defaults name = Placeholder.meaning bag' defaults' name) ∧
    (∀ passages, s.Retrieves [] (s.render bag [] b).1 passages →
      ∀ name ∈ Placeholder.referenced (s.separator.intercalate passages),
        Placeholder.meaning bag s.defaults name = Placeholder.meaning bag' defaults' name) ∧
    Placeholder.meaning bag s.defaults "secret".toList ≠
      Placeholder.meaning bag' defaults' "secret".toList ∧
    { s with defaults := defaults' }.render bag' [] b =
      ([{ id := some ["a".toList] }], .ok (mention ++ "30".toList)) := by
  intro mention source s bag bag' defaults' b
  have htemplate : ∀ name ∈ Placeholder.referenced b.template,
      Placeholder.meaning bag s.defaults name = Placeholder.meaning bag' defaults' name := by
    have hnames : Placeholder.referenced b.template = ["q".toList] := rfl
    rw [hnames, List.forall_mem_singleton]
    rfl
  have hpassages : ∀ passages, s.Retrieves [] (s.render bag [] b).1 passages →
      ∀ name ∈ Placeholder.referenced (s.separator.intercalate passages),
        Placeholder.meaning bag s.defaults name = Placeholder.meaning bag' defaults' name := by
    rintro passages ⟨earlier, filters, -, -, source', hsource, hfound⟩
    cases hsource
    cases hfound
    have hnames : Placeholder.referenced (s.separator.intercalate
        [(Token.tag "days".toList).raw]) = ["days".toList] := rfl
    rw [hnames, List.forall_mem_singleton]
    rfl
  have hrun : s.render bag [] b =
      ([{ id := some ["a".toList] }], .ok (mention ++ "30".toList)) := rfl
  refine ⟨htemplate, hpassages, by decide, ?_⟩
  exact (s.render_of_agree bag bag' defaults' [] b htemplate hpassages).trans hrun

end Setting

end DialogScript
