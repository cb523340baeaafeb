import DialogScript.Preview
import DialogScript.Proofs.Attribute

/-!
The command line of a preview. Options that are written as arguments, in any order that keeps the
settings and the replies in theirs, are read back as they were, whatever their values look like; of
a flag with one value the last counts.
-/

namespace DialogScript.Preview

/-- The flags with one value. -/
inductive Single
  | templates
  | id
  | name
  | category
  | knowledge
deriving DecidableEq, Repr

namespace Single

def all : List Single := [templates, id, name, category, knowledge]

def flag : Single → Text
  | templates => "--templates".toList
  | id => "--id".toList
  | name => "--name".toList
  | category => "--category".toList
  | knowledge => "--knowledge".toList

end Single

/-- A flag with what belongs to it. -/
inductive Argument
  | single (s : Single) (value : Text)
  | setting (entry : Text × Text)
  | reply (text : Text)
  | json
deriving DecidableEq, Repr

namespace Argument

def words : Argument → List Text
  | single s value => [s.flag, value]
  | setting entry => ["--set".toList, Directive.written entry]
  | reply text => ["--reply".toList, text]
  | json => ["--json".toList]

/-- A setting is cut at its first `=`, so its name must not hold one. -/
def Valid : Argument → Prop
  | setting entry => '=' ∉ entry.1
  | _ => True

def value? (s : Single) : Argument → Option Text
  | single other value => if other = s then some value else none
  | _ => none

def setting? : Argument → Option (Text × Text)
  | setting entry => some entry
  | _ => none

def reply? : Argument → Option Text
  | reply text => some text
  | _ => none

def isJson : Argument → Bool
  | json => true
  | _ => false

end Argument

namespace Options

def get (o : Options) : Single → Option Text
  | .templates => some o.templates
  | .id => o.id
  | .name => o.name
  | .category => o.category
  | .knowledge => o.knowledge

def put (o : Options) (value : Text) : Single → Options
  | .templates => { o with templates := value }
  | .id => { o with id := some value }
  | .name => { o with name := some value }
  | .category => { o with category := some value }
  | .knowledge => { o with knowledge := some value }

theorem ext_get {o o' : Options} (hget : ∀ s, o.get s = o'.get s) (hvalues : o.values = o'.values)
    (hreplies : o.replies = o'.replies) (hjson : o.json = o'.json) : o = o' := by
  obtain ⟨templates, id, name, category, knowledge, values, replies, json⟩ := o
  cases hget .templates
  cases hget .id
  cases hget .name
  cases hget .category
  cases hget .knowledge
  cases hvalues
  cases hreplies
  cases hjson
  rfl

theorem get_put (o : Options) (value : Text) (s s' : Single) :
    (o.put value s).get s' = if s = s' then some value else o.get s' := by
  cases s <;> cases s' <;> rfl

theorem put_lists (o : Options) (value : Text) (s : Single) :
    (o.put value s).values = o.values ∧ (o.put value s).replies = o.replies ∧
      (o.put value s).json = o.json := by
  cases s <;> exact ⟨rfl, rfl, rfl⟩

theorem set_flag (o : Options) (value : Text) (s : Single) :
    o.set s.flag value = .ok (o.put value s) := by
  cases s <;> rfl

/-- The options with an argument taken in. -/
def take (o : Options) : Argument → Options
  | .single s value => o.put value s
  | .setting entry => { o with values := o.values ++ [entry] }
  | .reply text => { o with replies := o.replies ++ [text] }
  | .json => { o with json := true }

theorem set_setting (o : Options) (value : Text) :
    o.set "--set".toList value =
      match value.splitFirst? '=' with
      | some entry => .ok { o with values := o.values ++ [entry] }
      | none => .error (.noKeyValue value) := rfl

theorem read_value (h : flag ≠ "--json".toList) (o : Options) (value : Text) (rest : List Text) :
    o.read (flag :: value :: rest) = (o.set flag value).bind fun o' => o'.read rest := by
  rw [read, if_neg h]
  rfl

theorem read_json (o : Options) (rest : List Text) :
    o.read ("--json".toList :: rest) = { o with json := true }.read rest := by
  cases rest with
  | nil => rfl
  | cons value rest => rfl

/-- Whatever its value looks like, an argument is taken in as a whole. -/
theorem read_words {a : Argument} (h : a.Valid) (o : Options) (rest : List Text) :
    o.read (a.words ++ rest) = (o.take a).read rest := by
  cases a with
  | single s value =>
    have hflag : s.flag ≠ "--json".toList := by
      cases s <;> decide
    exact (read_value hflag o value rest).trans (by rw [set_flag]; rfl)
  | setting entry =>
    have hsplit : (Directive.written entry).splitFirst? '=' = some entry :=
      Text.splitFirst?_eq_some_iff.2 ⟨rfl, h⟩
    exact (read_value (by decide) o _ rest).trans (by rw [set_setting, hsplit]; rfl)
  | reply text => exact (read_value (by decide) o text rest).trans rfl
  | json => exact read_json o rest

theorem read_flatMap_words {arguments : List Argument} (h : ∀ a ∈ arguments, a.Valid) (o : Options)
    (rest : List Text) :
    o.read (arguments.flatMap Argument.words ++ rest) = (arguments.foldl take o).read rest := by
  induction arguments generalizing o with
  | nil => rfl
  | cons a arguments ih =>
    rw [List.forall_mem_cons] at h
    rw [List.flatMap_cons, List.append_assoc, read_words h.1, ih h.2, List.foldl_cons]

theorem get_take (o : Options) (a : Argument) (s : Single) :
    (o.take a).get s = (a.value? s).or (o.get s) := by
  cases a with
  | single other value =>
    rw [take, get_put, Argument.value?]
    split <;> rfl
  | setting entry => cases s <;> rfl
  | reply text => cases s <;> rfl
  | json => cases s <;> rfl

/-- Of the values of a flag the last counts. -/
theorem get_foldl_take (arguments : List Argument) (o : Options) (s : Single) :
    (arguments.foldl take o).get s =
      (arguments.filterMap (Argument.value? s)).getLast?.or (o.get s) := by
  induction arguments using List.reverseRecOn with
  | nil => rfl
  | append_singleton arguments a ih =>
    rw [List.foldl_append, List.foldl_cons, List.foldl_nil, get_take, ih,
      Text.getLast?_filterMap_concat, Option.or_assoc]

/-- All that is written of the others counts. -/
theorem foldl_take (arguments : List Argument) (o : Options) :
    (arguments.foldl take o).values = o.values ++ arguments.filterMap Argument.setting? ∧
    (arguments.foldl take o).replies = o.replies ++ arguments.filterMap Argument.reply? ∧
    (arguments.foldl take o).json = (o.json || arguments.any Argument.isJson) := by
  induction arguments generalizing o with
  | nil => simp
  | cons a arguments ih =>
    obtain ⟨hvalues, hreplies, hjson⟩ := ih (o.take a)
    rw [List.foldl_cons, hvalues, hreplies, hjson]
    cases a with
    | single s value =>
      obtain ⟨hputvalues, hputreplies, hputjson⟩ := o.put_lists value s
      rw [take, hputvalues, hputreplies, hputjson]
      exact ⟨rfl, rfl, rfl⟩
    | setting entry => exact ⟨List.append_assoc _ _ _, rfl, rfl⟩
    | reply text => exact ⟨rfl, List.append_assoc _ _ _, rfl⟩
    | json => exact ⟨rfl, rfl, (Bool.or_true _).symm⟩

/-- An argument for each flag that is given, and for each setting and each reply. -/
def listed (o : Options) : List Argument :=
  (Single.all.filterMap fun s => (o.get s).map (Argument.single s)) ++
    o.values.map Argument.setting ++ o.replies.map Argument.reply ++
      if o.json then [Argument.json] else []

theorem filterMap_value?_listed (o : Options) (s : Single) :
    o.listed.filterMap (Argument.value? s) = (o.get s).toList := by
  have hsingle (other : Single) :
      ((o.get other).map (Argument.single other)).bind (Argument.value? s) =
        if other = s then o.get s else none := by
    by_cases hs : other = s
    · subst hs
      cases o.get other <;> simp [Argument.value?]
    · cases o.get other <;> simp [Argument.value?, hs]
  have hall : Single.all.filterMap (fun other => if other = s then o.get s else none) =
      (o.get s).toList := by
    cases o.get s <;> cases s <;> rfl
  have hsetting : (o.values.map Argument.setting).filterMap (Argument.value? s) = [] := by
    rw [List.filterMap_map]
    exact List.filterMap_eq_nil_iff.2 fun _ _ => rfl
  have hreply : (o.replies.map Argument.reply).filterMap (Argument.value? s) = [] := by
    rw [List.filterMap_map]
    exact List.filterMap_eq_nil_iff.2 fun _ _ => rfl
  have hjson : (if o.json then [Argument.json] else []).filterMap (Argument.value? s) = [] := by
    split <;> rfl
  simp only [listed, List.filterMap_append, hsetting, hreply, hjson, List.append_nil,
    List.filterMap_filterMap, hsingle, hall]

theorem any_isJson_listed (o : Options) : o.listed.any Argument.isJson = o.json := by
  have hsingle : (Single.all.filterMap fun s => (o.get s).map (Argument.single s)).any
      Argument.isJson = false := by
    rw [List.any_eq_false]
    intro a ha
    obtain ⟨s, -, hs⟩ := List.mem_filterMap.1 ha
    obtain ⟨value, -, rfl⟩ := Option.map_eq_some_iff.1 hs
    exact Bool.false_ne_true
  have hsetting : (o.values.map Argument.setting).any Argument.isJson = false := by
    rw [List.any_map]
    exact List.any_eq_false.2 fun _ _ => Bool.false_ne_true
  have hreply : (o.replies.map Argument.reply).any Argument.isJson = false := by
    rw [List.any_map]
    exact List.any_eq_false.2 fun _ _ => Bool.false_ne_true
  have hjson : (if o.json then [Argument.json] else []).any Argument.isJson = o.json := by
    cases o.json <;> rfl
  simp only [listed, List.any_append, hsingle, hsetting, hreply, hjson, Bool.false_or]

/-- The arguments are those of the options in some order, with the settings and the replies in
theirs. -/
structure Written (o : Options) (arguments : List Argument) : Prop where
  perm : arguments.Perm o.listed
  values : arguments.filterMap Argument.setting? = o.values
  replies : arguments.filterMap Argument.reply? = o.replies

theorem Written.foldl_take {o : Options} (h : o.Written arguments) :
    arguments.foldl take {} = o := by
  obtain ⟨hvalues, hreplies, hjson⟩ := Options.foldl_take arguments {}
  apply ext_get
  · intro s
    have hs := h.perm.filterMap (Argument.value? s)
    rw [filterMap_value?_listed] at hs
    rw [get_foldl_take]
    cases hget : o.get s with
    | none =>
      rw [hget] at hs
      rw [List.perm_nil.1 hs]
      cases s with
      | templates => cases hget
      | id => rfl
      | name => rfl
      | category => rfl
      | knowledge => rfl
    | some value =>
      rw [hget] at hs
      rw [List.perm_singleton.1 hs]
      rfl
  · rw [hvalues, h.values, List.nil_append]
  · rw [hreplies, h.replies, List.nil_append]
  · rw [hjson, h.perm.any_eq, any_isJson_listed, Bool.false_or]

theorem Written.valid {o : Options} (h : o.Written arguments)
    (hnames : ∀ entry ∈ o.values, '=' ∉ entry.1) : ∀ a ∈ arguments, a.Valid := by
  intro a ha
  cases a with
  | setting entry =>
    apply hnames
    rw [← h.values, List.mem_filterMap]
    exact ⟨_, ha, rfl⟩
  | single s value => trivial
  | reply text => trivial
  | json => trivial

theorem parse_flatMap_words {arguments : List Argument} (h : ∀ a ∈ arguments, a.Valid) :
    parse (arguments.flatMap Argument.words) = (arguments.foldl take {}).read [] := by
  have hread := read_flatMap_words h {} []
  rwa [List.append_nil] at hread

/-- The same arguments with others put in, each of a flag that comes again later. -/
inductive Overridden (arguments : List Argument) : List Argument → Prop
  | refl : Overridden arguments arguments
  | insert (h : Overridden arguments (first ++ second ++ .single s value :: third))
      (earlier : Text) :
    Overridden arguments (first ++ .single s earlier :: second ++ .single s value :: third)

/-- What a flag was given earlier is forgotten. -/
theorem put_foldl_put (o : Options) (second : List Argument) (s : Single) (earlier value : Text) :
    (second.foldl take (o.put earlier s)).put value s = (second.foldl take o).put value s := by
  obtain ⟨hvalues, hreplies, hjson⟩ := foldl_take second o
  obtain ⟨hvalues', hreplies', hjson'⟩ := foldl_take second (o.put earlier s)
  obtain ⟨hputvalues, hputreplies, hputjson⟩ := o.put_lists earlier s
  rw [hputvalues, ← hvalues] at hvalues'
  rw [hputreplies, ← hreplies] at hreplies'
  rw [hputjson, ← hjson] at hjson'
  apply ext_get
  · intro other
    rw [get_put, get_put]
    by_cases hs : s = other
    · rw [if_pos hs, if_pos hs]
    · rw [if_neg hs, if_neg hs, get_foldl_take, get_foldl_take, get_put, if_neg hs]
  · rw [(put_lists _ value s).1, (put_lists _ value s).1, hvalues']
  · rw [(put_lists _ value s).2.1, (put_lists _ value s).2.1, hreplies']
  · rw [(put_lists _ value s).2.2, (put_lists _ value s).2.2, hjson']

theorem Overridden.foldl_take (h : Overridden arguments more) (o : Options) :
    more.foldl take o = arguments.foldl take o := by
  induction h with
  | refl => rfl
  | @insert first second s value third _ earlier ih =>
    rw [← ih]
    simp only [List.foldl_append, List.foldl_cons, take, put_foldl_put]

theorem Overridden.valid (h : Overridden arguments more) (hvalid : ∀ a ∈ arguments, a.Valid) :
    ∀ a ∈ more, a.Valid := by
  induction h with
  | refl => exact hvalid
  | @insert first second s value third _ earlier ih =>
    simp only [List.forall_mem_append, List.forall_mem_cons] at ih ⊢
    exact ⟨⟨ih.1.1, trivial, ih.1.2⟩, ih.2⟩

/-- Options are read back from their arguments in every order that keeps the settings and the
replies in theirs, also when arguments stand among them whose flag comes again later. -/
theorem parse_written {o : Options} {arguments : List Argument} (htemplates : o.templates ≠ [])
    (hnames : ∀ entry ∈ o.values, '=' ∉ entry.1) (h : o.Written arguments) :
    parse (arguments.flatMap Argument.words) = .ok o ∧
    ∀ more, Overridden arguments more → parse (more.flatMap Argument.words) = .ok o := by
  have hdone : o.read [] = .ok o := by
    rw [read, if_neg]
    rwa [List.isEmpty_iff]
  have hvalid := h.valid hnames
  refine ⟨?_, ?_⟩
  · rw [parse_flatMap_words hvalid, h.foldl_take, hdone]
  · intro more hmore
    rw [parse_flatMap_words (hmore.valid hvalid), hmore.foldl_take, h.foldl_take, hdone]

/-- The law where values look like flags and like settings, and an empty path is given first. -/
theorem parse_written_flags :
    let o : Options := {
      templates := "--json".toList
      id := some "--set".toList
      values := [("--id".toList, "a=b".toList), ([], [])]
      replies := ["--reply".toList, []]
      json := true }
    let front : List Argument := [.reply "--reply".toList, .setting ("--id".toList, "a=b".toList),
      .json, .single .id "--set".toList, .setting ([], [])]
    let arguments := front ++ [.single .templates "--json".toList, .reply []]
    o.templates ≠ [] ∧ (∀ entry ∈ o.values, '=' ∉ entry.1) ∧ o.Written arguments ∧
    parse ["--templates".toList, [], "--reply".toList, "--reply".toList, "--set".toList,
      "--id=a=b".toList, "--json".toList, "--id".toList, "--set".toList, "--set".toList,
      "=".toList, "--templates".toList, "--json".toList, "--reply".toList, []] = .ok o := by
  intro o front arguments
  have htemplates : o.templates ≠ [] := by decide
  have hnames : ∀ entry ∈ o.values, '=' ∉ entry.1 := by decide
  have hwritten : o.Written arguments := ⟨by decide, rfl, rfl⟩
  have hsame : Overridden arguments
      ([] ++ front ++ .single .templates "--json".toList :: [.reply []]) := .refl
  exact ⟨htemplates, hnames, hwritten,
    (parse_written htemplates hnames hwritten).2 _ (hsame.insert [])⟩

end Options

end DialogScript.Preview
