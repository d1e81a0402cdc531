import AriaLint.Proofs.Smell.Reports
import Mathlib.Data.List.Forall2

/-!
# The order of the report

The passes report one after the other.  Within a pass one would like to read the findings as one
reads the snippet, from the left.  That is so for the passes that judge a tag and go on to the next
one, but two passes go through all tags once for each of their rules: the one on interaction and the
one on accessible names.  There a rule that comes late may find something in a tag that stands early.

`Category.rounds` lists the rules that a pass goes through the tags with.  A finding that names a tag
is made in one of these rounds and at one of the tags (`Placed`), and the report has these findings
round by round, and from the left in each round (`detect_default_order`).  So they are in scan order
whenever the places never go back from one round to the next, and where no two tags have the same
name only then.
-/

namespace AriaLint.Smell

/-! ## Rounds -/

/-- The rules with which a pass goes through the tags of a snippet, one after the other.  Findings
about the snippet as a whole are left out. -/
def Category.rounds (s : Text) :
    Category → List (Occurrence → Except Markup.MarkupError (List Diagnostic))
  | .roleSemantics => [fun o => .ok (Smell.roleSemantics o.tag)]
  | .interaction => [fun o => .ok (mouseOnly o.tag), fun o => .ok (uncontrolledDisclosure o.tag)]
  | .accessibleName => [fun o => .ok (labelSources o.tag), namelessButton s, namelessControl s]
  | .attributes => [fun o => .ok (attributeUse o.tag)]
  | .containment => []

/-! ### The tags that findings name -/

section Names

variable {t : Tag} {d : Diagnostic}

/-- Many rules have one finding or none. -/
theorem eq_of_mem_ite_singleton {p : Prop} [Decidable p] {e : Diagnostic}
    (h : d ∈ if p then [e] else []) : d = e :=
  List.mem_singleton.1 (List.mem_ite_nil_right.1 h).2

theorem tagName_of_mem_roleSemantics (h : d ∈ Smell.roleSemantics t) : d.tagName = some t.name := by
  unfold Smell.roleSemantics at h
  split at h
  · simp at h
  · rcases List.mem_append.1 h with h | h
    · unfold nativeRole at h
      split at h
      · simp at h
      · split at h <;> rw [List.mem_singleton.1 h]
    · rw [eq_of_mem_ite_singleton h]

theorem tagName_of_mem_mouseOnly (h : d ∈ mouseOnly t) : d.tagName = some t.name := by
  unfold mouseOnly at h
  split at h
  · simp at h
  · split at h
    · simp at h
    · rw [List.mem_singleton.1 h]

theorem tagName_of_mem_uncontrolledDisclosure (h : d ∈ uncontrolledDisclosure t) :
    d.tagName = some t.name := by rw [eq_of_mem_ite_singleton h]

theorem tagName_of_mem_labelSources (h : d ∈ labelSources t) : d.tagName = some t.name := by
  rcases List.mem_append.1 h with h | h
  · rw [eq_of_mem_ite_singleton h]
  · rw [eq_of_mem_ite_singleton h]

theorem tagName_of_mem_namelessButton {s : Text} {o : Occurrence} {ds : List Diagnostic}
    (h : namelessButton s o = .ok ds) (hd : d ∈ ds) : d.tagName = some o.tag.name := by
  unfold namelessButton at h
  split at h
  · obtain rfl := Except.ok.inj h
    simp at hd
  · rw [mem_map_inner h hd]

theorem tagName_of_mem_namelessControl {s : Text} {o : Occurrence} {ds : List Diagnostic}
    (h : namelessControl s o = .ok ds) (hd : d ∈ ds) : d.tagName = some o.tag.name := by
  unfold namelessControl at h
  split at h
  · obtain rfl := Except.ok.inj h
    simp at hd
  · split at h
    · obtain rfl := Except.ok.inj h
      simp at hd
    · rw [mem_map_inner h hd]

theorem tagName_of_mem_attributeUse (h : d ∈ attributeUse t) : d.tagName = some t.name := by
  unfold attributeUse at h
  split at h
  · simp at h
  · simp only [List.mem_append, List.mem_map] at h
    rcases h with (⟨n, -, rfl⟩ | ⟨n, -, rfl⟩) | ⟨a, -, rfl⟩ <;> rfl

end Names

/-- What is found in a round names the tag that it is found at. -/
theorem tagName_of_mem_rounds {s : Text} {c : Category}
    {rule : Occurrence → Except Markup.MarkupError (List Diagnostic)} (hrule : rule ∈ c.rounds s)
    {o : Occurrence} {ds : List Diagnostic} {d : Diagnostic} (h : rule o = .ok ds) (hd : d ∈ ds) :
    d.tagName = some o.tag.name := by
  cases c with
  | roleSemantics =>
    obtain rfl := List.mem_singleton.1 hrule
    obtain rfl := Except.ok.inj h
    exact tagName_of_mem_roleSemantics hd
  | interaction =>
    rcases List.mem_cons.1 hrule with rfl | hrule
    · obtain rfl := Except.ok.inj h
      exact tagName_of_mem_mouseOnly hd
    · obtain rfl := List.mem_singleton.1 hrule
      obtain rfl := Except.ok.inj h
      exact tagName_of_mem_uncontrolledDisclosure hd
  | accessibleName =>
    rcases List.mem_cons.1 hrule with rfl | hrule
    · obtain rfl := Except.ok.inj h
      exact tagName_of_mem_labelSources hd
    · rcases List.mem_cons.1 hrule with rfl | hrule
      · exact tagName_of_mem_namelessButton h hd
      · obtain rfl := List.mem_singleton.1 hrule
        exact tagName_of_mem_namelessControl h hd
  | attributes =>
    obtain rfl := List.mem_singleton.1 hrule
    obtain rfl := Except.ok.inj h
    exact tagName_of_mem_attributeUse hd
  | containment => exact absurd hrule List.not_mem_nil

/-! ### What all rounds find -/

/-- A finding that names a tag. -/
def namesTag (d : Diagnostic) : Bool := d.tagName.isSome

theorem filter_namesTag_eq_self {ds : List Diagnostic}
    (h : ∀ d ∈ ds, ∃ t : Tag, d.tagName = some t.name) : ds.filter namesTag = ds :=
  List.filter_eq_self.2 fun d hd => by
    obtain ⟨t, ht⟩ := h d hd
    rw [namesTag, ht]
    rfl

theorem filter_namesTag_eq_nil {ds : List Diagnostic} (h : ∀ d ∈ ds, d.tagName = none) :
    ds.filter namesTag = [] :=
  List.filter_eq_nil_iff.2 fun d hd => by
    rw [namesTag, h d hd]
    simp

/-- A rule that always has an answer gives one for each tag. -/
theorem mapM_ok_tag (rule : Tag → List Diagnostic) (s : Text) :
    (Occurrence.all s).mapM (fun o => (.ok (rule o.tag) : Except Markup.MarkupError _)) =
      .ok ((Tag.all s).map rule) := by
  rw [← Occurrence.map_tag_all, List.map_map]
  exact List.mapM_pure

/-- What a walk with a rule finds names tags. -/
theorem filter_namesTag_flatten {s : Text} {c : Category}
    {rule : Occurrence → Except Markup.MarkupError (List Diagnostic)} (hrule : rule ∈ c.rounds s)
    {dss : List (List Diagnostic)} (h : (Occurrence.all s).mapM rule = .ok dss) :
    dss.flatten.filter namesTag = dss.flatten :=
  filter_namesTag_eq_self fun d hd => by
    obtain ⟨o, -, ds, hds, hmem⟩ := exists_of_mem_flatten_mapM h hd
    exact ⟨o.tag, tagName_of_mem_rounds hrule hds hmem⟩

/-- So does what is found by a rule that always has an answer. -/
theorem filter_namesTag_flatMap {s : Text} {c : Category} {rule : Tag → List Diagnostic}
    (hrule : (fun o : Occurrence => .ok (rule o.tag)) ∈ c.rounds s) :
    ((Tag.all s).flatMap rule).filter namesTag = ((Tag.all s).map rule).flatten :=
  filter_namesTag_flatten hrule (mapM_ok_tag rule s)

theorem tagName_of_mem_containment {roles : List Text} {d : Diagnostic}
    (h : d ∈ Smell.containment roles) : d.tagName = none := by
  obtain ⟨rule, -, hd⟩ := List.mem_filterMap.1 h
  unfold ContainmentRule.finding? at hd
  split at hd
  · simp at hd
  · split at hd
    · simp at hd
    · obtain rfl := Option.some.inj hd
      rfl

theorem mapM_cons_ok {α β ε : Type} {f : α → Except ε β} {a : α} {as : List α} {b : β}
    {bs : List β} (h : f a = .ok b) (hs : as.mapM f = .ok bs) : (a :: as).mapM f = .ok (b :: bs) := by
  rw [List.mapM_cons, h, hs]
  rfl

/-- **The findings of a pass that name a tag are those of its rounds**, one round after the other. -/
theorem exists_rounds_of_findings {s : Text} {c : Category} {es : List Diagnostic}
    (h : c.findings s = .ok es) :
    ∃ rounds, (c.rounds s).mapM (fun rule => (Occurrence.all s).mapM rule) = .ok rounds ∧
      es.filter namesTag = (rounds.map List.flatten).flatten := by
  cases c with
  | roleSemantics =>
    obtain rfl := Except.ok.inj h
    refine ⟨[(Tag.all s).map Smell.roleSemantics],
      mapM_cons_ok (mapM_ok_tag Smell.roleSemantics s) rfl, ?_⟩
    rw [List.map_singleton, List.flatten_singleton]
    exact filter_namesTag_flatMap (c := .roleSemantics) List.mem_cons_self
  | interaction =>
    obtain rfl := Except.ok.inj h
    refine ⟨_, mapM_cons_ok (mapM_ok_tag mouseOnly s)
      (mapM_cons_ok (mapM_ok_tag uncontrolledDisclosure s) rfl), ?_⟩
    have hmouse := filter_namesTag_flatMap (s := s) (c := .interaction) List.mem_cons_self
    have hdisclosure := filter_namesTag_flatMap (s := s) (c := .interaction)
      (List.mem_cons_of_mem _ List.mem_cons_self)
    have htab : (expandedTab (Tag.all s)).filter namesTag = [] :=
      filter_namesTag_eq_nil fun d hd => by rw [eq_of_mem_ite_singleton hd]
    have hdialog : (dialogModality (Tag.all s)).filter namesTag = [] :=
      filter_namesTag_eq_nil fun d hd => by rw [eq_of_mem_ite_singleton hd]
    have hswitch : (switchState (Tag.all s)).filter namesTag = [] :=
      filter_namesTag_eq_nil fun d hd => by rw [eq_of_mem_ite_singleton hd]
    rw [interactionFindings, List.filter_append, List.filter_append, List.filter_append,
      List.filter_append, htab, hdialog, hswitch, hmouse, hdisclosure]
    simp
  | accessibleName =>
    obtain ⟨buttons, hbuttons, h⟩ := eq_ok_of_bind_eq_ok h
    obtain ⟨controls, hcontrols, h⟩ := eq_ok_of_bind_eq_ok h
    obtain rfl := Except.ok.inj h
    refine ⟨_, mapM_cons_ok (mapM_ok_tag labelSources s)
      (mapM_cons_ok hbuttons (mapM_cons_ok hcontrols rfl)), ?_⟩
    replace hbuttons := filter_namesTag_flatten (c := .accessibleName)
      (List.mem_cons_of_mem _ List.mem_cons_self) hbuttons
    replace hcontrols := filter_namesTag_flatten (c := .accessibleName)
      (List.mem_cons_of_mem _ (List.mem_cons_of_mem _ List.mem_cons_self)) hcontrols
    have hlabels := filter_namesTag_flatMap (s := s) (c := .accessibleName) List.mem_cons_self
    have hempty : (emptyNames s).filter namesTag = [] := filter_namesTag_eq_nil fun d hd => by
      obtain ⟨a, -, rfl⟩ := List.mem_map.1 hd
      rfl
    rw [List.filter_append, List.filter_append, List.filter_append, hempty, hbuttons, hcontrols,
      Occurrence.map_tag_all, hlabels]
    simp
  | attributes =>
    obtain rfl := Except.ok.inj h
    refine ⟨[(Tag.all s).map attributeUse], mapM_cons_ok (mapM_ok_tag attributeUse s) rfl, ?_⟩
    rw [List.map_singleton, List.flatten_singleton]
    exact filter_namesTag_flatMap (c := .attributes) List.mem_cons_self
  | containment =>
    obtain rfl := Except.ok.inj h
    exact ⟨[], rfl, filter_namesTag_eq_nil fun d hd => tagName_of_mem_containment hd⟩

/-! ## Places -/

/-- A finding, the round of the pass in which it is made, and the number of the tag it is made
at. -/
structure Placed where
  finding : Diagnostic
  round : Nat
  place : Nat

namespace Placed

/-- The pass finds it in that round at that tag, whose name it tells. -/
def MadeBy (s : Text) (c : Category) (p : Placed) : Prop :=
  ∃ rule o ds, (c.rounds s)[p.round]? = some rule ∧ (Occurrence.all s)[p.place]? = some o ∧
    rule o = .ok ds ∧ p.finding ∈ ds ∧ p.finding.tagName = some o.tag.name

/-- An earlier round, or the same round and no later tag. -/
def Precedes (p q : Placed) : Prop := p.round < q.round ∨ p.round = q.round ∧ p.place ≤ q.place

end Placed

/-- **A round goes from the left.** -/
theorem exists_placed_of_round {s : Text} {c : Category} {r : Nat}
    {rule : Occurrence → Except Markup.MarkupError (List Diagnostic)}
    (hrule : (c.rounds s)[r]? = some rule) {before os : List Occurrence}
    (hall : Occurrence.all s = before ++ os) {dss : List (List Diagnostic)}
    (h : os.mapM rule = .ok dss) :
    ∃ ps : List Placed, ps.map Placed.finding = dss.flatten ∧
      (∀ p ∈ ps, p.MadeBy s c ∧ p.round = r ∧ before.length ≤ p.place) ∧
      ps.Pairwise fun p q => p.place ≤ q.place := by
  induction os generalizing before dss with
  | nil =>
    obtain rfl := Except.ok.inj h
    exact ⟨[], rfl, by simp, .nil⟩
  | cons o os ih =>
    obtain ⟨ds, ess, hds, hess, rfl⟩ := eq_cons_of_mapM_cons h
    have hrest : Occurrence.all s = (before ++ [o]) ++ os := by rw [hall, List.append_cons]
    obtain ⟨ps, hps, hmade, hsorted⟩ := ih hrest hess
    have hplace : (Occurrence.all s)[before.length]? = some o := by
      rw [hall, List.getElem?_append_right (Nat.le_refl _), Nat.sub_self]
      rfl
    refine ⟨ds.map (fun d => ⟨d, r, before.length⟩) ++ ps, ?_, ?_, ?_⟩
    · rw [List.map_append, hps, List.map_map, List.flatten_cons]
      exact congrArg (· ++ ess.flatten) (List.map_id ds)
    · intro p hp
      rcases List.mem_append.1 hp with hp | hp
      · obtain ⟨d, hd, rfl⟩ := List.mem_map.1 hp
        have hname := tagName_of_mem_rounds (List.mem_of_getElem? hrule) hds hd
        exact ⟨⟨rule, o, ds, hrule, hplace, hds, hd, hname⟩, rfl, Nat.le_refl _⟩
      · obtain ⟨hp, hround, hle⟩ := hmade p hp
        rw [List.length_append] at hle
        exact ⟨hp, hround, Nat.le_trans (Nat.le_add_right _ _) hle⟩
    · refine List.pairwise_append.2 ⟨?_, hsorted, ?_⟩
      · exact List.pairwise_map.2 (List.pairwise_of_forall fun _ _ => Nat.le_refl _)
      · intro p hp q hq
        obtain ⟨d, -, rfl⟩ := List.mem_map.1 hp
        have hle := (hmade q hq).2.2
        rw [List.length_append] at hle
        exact Nat.le_trans (Nat.le_add_right _ _) hle

/-- **Rounds follow one another.** -/
theorem exists_placed_of_rounds {s : Text} {c : Category}
    {before rules : List (Occurrence → Except Markup.MarkupError (List Diagnostic))}
    (hall : c.rounds s = before ++ rules) {rounds : List (List (List Diagnostic))}
    (h : rules.mapM (fun rule => (Occurrence.all s).mapM rule) = .ok rounds) :
    ∃ ps : List Placed, ps.map Placed.finding = (rounds.map List.flatten).flatten ∧
      (∀ p ∈ ps, p.MadeBy s c ∧ before.length ≤ p.round) ∧ ps.Pairwise Placed.Precedes := by
  induction rules generalizing before rounds with
  | nil =>
    obtain rfl := Except.ok.inj h
    exact ⟨[], rfl, by simp, .nil⟩
  | cons rule rules ih =>
    obtain ⟨dss, rest, hdss, hrest, rfl⟩ := eq_cons_of_mapM_cons h
    have hrules : c.rounds s = (before ++ [rule]) ++ rules := by rw [hall, List.append_cons]
    obtain ⟨qs, hqs, hlater, hsorted⟩ := ih hrules hrest
    have hrule : (c.rounds s)[before.length]? = some rule := by
      rw [hall, List.getElem?_append_right (Nat.le_refl _), Nat.sub_self]
      rfl
    have hos : Occurrence.all s = [] ++ Occurrence.all s := rfl
    obtain ⟨ps, hps, hmade, hleft⟩ := exists_placed_of_round hrule hos hdss
    refine ⟨ps ++ qs, by rw [List.map_append, hps, hqs]; rfl, ?_, ?_⟩
    · intro p hp
      rcases List.mem_append.1 hp with hp | hp
      · exact ⟨(hmade p hp).1, Nat.le_of_eq (hmade p hp).2.1.symm⟩
      · have hle := (hlater p hp).2
        rw [List.length_append] at hle
        exact ⟨(hlater p hp).1, Nat.le_trans (Nat.le_add_right _ _) hle⟩
    · refine List.pairwise_append.2 ⟨?_, hsorted, ?_⟩
      · refine hleft.imp_of_mem fun {p q} hp hq hle => Or.inr ⟨?_, hle⟩
        rw [(hmade p hp).2.1, (hmade q hq).2.1]
      · intro p hp q hq
        have hle := (hlater q hq).2
        rw [List.length_append, List.length_singleton] at hle
        rw [Placed.Precedes, (hmade p hp).2.1]
        exact Or.inl hle

/-! ## The report -/

/-- The number of the pass among all passes. -/
def Category.turn (c : Category) : Nat := Category.all.idxOf c

/-- The findings of passes that run one after the other are in the order of the passes. -/
theorem pairwise_turn_of_findings {s : Text} {cs : List Category} {dss : List (List Diagnostic)}
    (h : cs.mapM (Category.findings s) = .ok dss) (hcs : cs.Pairwise fun c c' => c.turn ≤ c'.turn) :
    dss.flatten.Pairwise fun d e => d.category.turn ≤ e.category.turn := by
  induction cs generalizing dss with
  | nil =>
    obtain rfl := Except.ok.inj h
    exact .nil
  | cons c cs ih =>
    obtain ⟨ds, ess, hds, hess, rfl⟩ := eq_cons_of_mapM_cons h
    obtain ⟨hfirst, hrest⟩ := List.pairwise_cons.1 hcs
    have hown : ∀ d ∈ ds, d.category = c := fun d hd => category_of_mem_findings hds hd
    refine List.pairwise_append.2 ⟨?_, ih hess hrest, fun d hd e he => ?_⟩
    · refine List.pairwise_of_forall_mem_list fun d hd e he => Nat.le_of_eq ?_
      rw [hown d hd, hown e he]
    · obtain ⟨c', hc', es, hes, hmem⟩ := exists_of_mem_flatten_mapM hess he
      rw [hown d hd, category_of_mem_findings hes hmem]
      exact hfirst c' hc'

/-- The findings of a pass that name a tag. -/
def named (c : Category) (ds : List Diagnostic) : List Diagnostic :=
  ds.filter fun d => d.category == c && namesTag d

/-- **The findings can be read off the tags from the left**: there are numbers of tags for them, in
order, such that each finding names the tag of its number. -/
def InScanOrder (s : Text) (ds : List Diagnostic) : Prop :=
  ∃ places : List Nat, places.Pairwise (· ≤ ·) ∧
    List.Forall₂ (fun d i => ∃ t, (Tag.all s)[i]? = some t ∧ d.tagName = some t.name) ds places

theorem getElem?_all {s : Text} {i : Nat} {o : Occurrence} (h : (Occurrence.all s)[i]? = some o) :
    (Tag.all s)[i]? = some o.tag := by
  rw [← Occurrence.map_tag_all, List.getElem?_map, h]
  rfl

section Places

variable {s : Text} {c : Category} {ps : List Placed} (hmade : ∀ p ∈ ps, p.MadeBy s c)
include hmade

/-- Findings whose places never go back are in scan order. -/
theorem inScanOrder_of_pairwise (h : ps.Pairwise fun p q => p.place ≤ q.place) :
    InScanOrder s (ps.map Placed.finding) := by
  refine ⟨ps.map Placed.place, List.pairwise_map.2 h, ?_⟩
  rw [List.forall₂_map_left_iff, List.forall₂_map_right_iff]
  refine List.forall₂_same.2 fun p hp => ?_
  obtain ⟨rule, o, ds, -, ho, -, -, hname⟩ := hmade p hp
  exact ⟨o.tag, getElem?_all ho, hname⟩

/-- Where no two tags have the same name, a finding names one tag only. -/
theorem map_place_eq (hnames : ((Tag.all s).map Tag.name).Nodup) {places : List Nat}
    (h : List.Forall₂ (fun d i => ∃ t, (Tag.all s)[i]? = some t ∧ d.tagName = some t.name)
      (ps.map Placed.finding) places) : ps.map Placed.place = places := by
  induction ps generalizing places with
  | nil => rw [List.forall₂_nil_left_iff.1 h, List.map_nil]
  | cons p ps ih =>
    obtain ⟨i, is, ⟨t, ht, hname⟩, his, rfl⟩ := List.forall₂_cons_left_iff.1 h
    obtain ⟨rule, o, ds, -, ho, -, -, hname'⟩ := hmade p List.mem_cons_self
    have hsame : ((Tag.all s).map Tag.name)[p.place]? = ((Tag.all s).map Tag.name)[i]? := by
      rw [List.getElem?_map, List.getElem?_map, getElem?_all ho, ht, Option.map_some,
        Option.map_some, ← hname, ← hname']
    have hlt : p.place < ((Tag.all s).map Tag.name).length := by
      rw [List.length_map]
      exact (List.getElem?_eq_some_iff.1 (getElem?_all ho)).1
    rw [List.map_cons, (List.getElem?_inj hlt hnames).1 hsame,
      ih (fun q hq => hmade q (List.mem_cons_of_mem p hq)) his]

/-- Where no two tags have the same name, findings are in scan order only when their places never go
back. -/
theorem pairwise_of_inScanOrder (hnames : ((Tag.all s).map Tag.name).Nodup)
    (h : InScanOrder s (ps.map Placed.finding)) : ps.Pairwise fun p q => p.place ≤ q.place := by
  obtain ⟨places, hsorted, hplaces⟩ := h
  rw [← map_place_eq hmade hnames hplaces] at hsorted
  exact List.pairwise_map.1 hsorted

/-- In a single round the places never go back. -/
theorem pairwise_of_single_round (hround : (c.rounds s).length ≤ 1)
    (hsorted : ps.Pairwise Placed.Precedes) : ps.Pairwise fun p q => p.place ≤ q.place := by
  have hfirst : ∀ p ∈ ps, p.round = 0 := by
    intro p hp
    obtain ⟨rule, -, -, hrule, -⟩ := hmade p hp
    have hlt := (List.getElem?_eq_some_iff.1 hrule).1
    omega
  refine hsorted.imp_of_mem fun {p q} hp hq hprec => ?_
  rcases hprec with hlt | ⟨-, hle⟩
  · rw [hfirst p hp, hfirst q hq] at hlt
    exact absurd hlt (Nat.lt_irrefl 0)
  · exact hle

end Places

/-- The findings of a report that name a tag come from the rounds of their passes. -/
theorem exists_placed_of_detect {s : Text} {ds : List Diagnostic} (h : detect .default s = .ok ds)
    (c : Category) :
    ∃ ps : List Placed, ps.map Placed.finding = named c ds ∧ (∀ p ∈ ps, p.MadeBy s c) ∧
      ps.Pairwise Placed.Precedes := by
  by_cases hblank : Text.trim s = []
  · rw [detect, if_pos hblank] at h
    obtain rfl := Except.ok.inj h
    exact ⟨[], rfl, by simp, .nil⟩
  · obtain ⟨dss, hdss, rfl⟩ := exists_findings_of_detect hblank h
    have hall : Category.all.filter Options.default.isEnabled = Category.all := rfl
    rw [hall] at hdss
    obtain ⟨rounds, hrounds, hnamed⟩ := exists_rounds_of_findings (findings_eq_filter hdss c)
    have hbefore : c.rounds s = [] ++ c.rounds s := rfl
    obtain ⟨ps, hps, hmade, hsorted⟩ := exists_placed_of_rounds hbefore hrounds
    -- caps leave findings out and keep the order
    have hsub : (named c (keepFirst (fun k => (Options.default.cap k).map Int.toNat)
        dss.flatten)).Sublist (ps.map Placed.finding) := by
      rw [hps, ← hnamed, List.filter_filter, named]
      have hkept := (keepFirst_sublist (fun k => (Options.default.cap k).map Int.toNat)
        dss.flatten).filter fun d => d.category == c && namesTag d
      simpa only [Bool.and_comm] using hkept
    obtain ⟨qs, hqs, heq⟩ := List.sublist_map_iff.1 hsub
    exact ⟨qs, heq.symm, fun p hp => (hmade p (hqs.subset hp)).1, hsorted.sublist hqs⟩

/-- **The order of the report.**  The passes come one after the other.  Within a pass, the findings
that name a tag come round by round, and from the left in each round.  So they are in scan order for
a pass that goes through the tags once, and for the other two when the places never go back from one
round to the next; where no two tags have the same name, only then. -/
theorem detect_default_order {s : Text} {ds : List Diagnostic} (h : detect .default s = .ok ds) :
    (ds.Pairwise fun d e => d.category.turn ≤ e.category.turn) ∧
    ∀ c : Category, ∃ ps : List Placed, ps.map Placed.finding = named c ds ∧
      (∀ p ∈ ps, p.MadeBy s c) ∧ ps.Pairwise Placed.Precedes ∧
      (c ≠ .interaction → c ≠ .accessibleName → InScanOrder s (named c ds)) ∧
      ((ps.Pairwise fun p q => p.place ≤ q.place) → InScanOrder s (named c ds)) ∧
      (((Tag.all s).map Tag.name).Nodup → InScanOrder s (named c ds) →
        ps.Pairwise fun p q => p.place ≤ q.place) := by
  constructor
  · by_cases hblank : Text.trim s = []
    · rw [detect, if_pos hblank] at h
      obtain rfl := Except.ok.inj h
      exact .nil
    · obtain ⟨dss, hdss, rfl⟩ := exists_findings_of_detect hblank h
      exact (pairwise_turn_of_findings hdss (by decide)).sublist (keepFirst_sublist _ _)
  · intro c
    obtain ⟨ps, hps, hmade, hsorted⟩ := exists_placed_of_detect h c
    refine ⟨ps, hps, hmade, hsorted, fun hinteraction hname => ?_, fun hplaces => ?_,
      fun hnames hscan => ?_⟩
    · have hround : (c.rounds s).length ≤ 1 := by
        cases c with
        | roleSemantics | attributes => exact Nat.le_refl 1
        | containment => exact Nat.zero_le 1
        | interaction => exact absurd rfl hinteraction
        | accessibleName => exact absurd rfl hname
      rw [← hps]
      exact inScanOrder_of_pairwise hmade (pairwise_of_single_round hmade hround hsorted)
    · rw [← hps]
      exact inScanOrder_of_pairwise hmade hplaces
    · rw [← hps] at hscan
      exact pairwise_of_inScanOrder hmade hnames hscan

/-- A mouse handler before a disclosure: both rounds go on from the left. -/
theorem detect_default_order_div_p :
    ∃ ds, detect .default "<div onclick='x'><p aria-expanded='true'>" = .ok ds ∧
      (named .interaction ds).map (·.kind) = [.mouseOnlyHandler, .expandedWithoutControls] ∧
      (ds.Pairwise fun d e => d.category.turn ≤ e.category.turn) ∧
      ∃ ps : List Placed, ps.map Placed.finding = named .interaction ds ∧
        (∀ p ∈ ps, p.MadeBy "<div onclick='x'><p aria-expanded='true'>" .interaction) ∧
        ps.Pairwise Placed.Precedes := by
  have hkinds : (detect .default "<div onclick='x'><p aria-expanded='true'>").toOption.map
      (fun ds => (named .interaction ds).map (·.kind)) =
        some [.mouseOnlyHandler, .expandedWithoutControls] := by decide +kernel
  cases h : detect .default "<div onclick='x'><p aria-expanded='true'>" with
  | error e =>
    rw [h] at hkinds
    exact absurd hkinds (by simp [Except.toOption])
  | ok ds =>
    rw [h] at hkinds
    obtain ⟨hpasses, hrounds⟩ := detect_default_order h
    obtain ⟨ps, hps, hmade, hsorted, -⟩ := hrounds .interaction
    exact ⟨ds, rfl, Option.some.inj hkinds, hpasses, ps, hps, hmade, hsorted⟩

/-- A disclosure before a mouse handler: the `div`, which comes second, is reported first. -/
theorem detect_default_not_inScanOrder :
    ∃ ds, detect .default "<p aria-expanded=\"true\"><div onclick=\"x\">" = .ok ds ∧
      ¬ InScanOrder "<p aria-expanded=\"true\"><div onclick=\"x\">" (named .interaction ds) := by
  have htags : (Tag.all "<p aria-expanded=\"true\"><div onclick=\"x\">").map Tag.name =
      [("p" : Text), "div"] := by decide +kernel
  have hnames : (detect .default "<p aria-expanded=\"true\"><div onclick=\"x\">").toOption.map
      (fun ds => (named .interaction ds).map (·.tagName)) =
        some [some ("div" : Text), some "p"] := by decide +kernel
  cases h : detect .default "<p aria-expanded=\"true\"><div onclick=\"x\">" with
  | error e =>
    rw [h] at hnames
    exact absurd hnames (by simp [Except.toOption])
  | ok ds =>
    rw [h] at hnames
    obtain ⟨d, es, hds, hd, hes⟩ := List.map_eq_cons_iff.1 (Option.some.inj hnames)
    obtain ⟨e, rest, rfl, he, -⟩ := List.map_eq_cons_iff.1 hes
    refine ⟨ds, rfl, ?_⟩
    rintro ⟨places, hsorted, hplaces⟩
    rw [hds] at hplaces
    obtain ⟨i, is, ⟨t, ht, hdt⟩, his, rfl⟩ := List.forall₂_cons_left_iff.1 hplaces
    obtain ⟨j, js, ⟨u, hu, heu⟩, -, rfl⟩ := List.forall₂_cons_left_iff.1 his
    have hnameAt : ∀ {k : Nat} {v : Tag} {n : Text},
        (Tag.all "<p aria-expanded=\"true\"><div onclick=\"x\">")[k]? = some v →
          some n = some v.name → [("p" : Text), "div"][k]? = some n := by
      intro k v n hv hn
      rw [← htags, List.getElem?_map, hv, Option.map_some, hn]
    have hi := hnameAt ht (hd.symm.trans hdt)
    have hj := hnameAt hu (he.symm.trans heu)
    have hle : i ≤ j := List.rel_of_pairwise_cons hsorted List.mem_cons_self
    cases i with
    | zero => exact absurd hi (by decide)
    | succ i =>
      -- so the second place is not the first tag either
      cases j with
      | zero => exact absurd hle (Nat.not_succ_le_zero i)
      | succ j =>
        cases j with
        | zero => exact absurd hj (by decide)
        | succ j => exact absurd hj (by simp)

end AriaLint.Smell
