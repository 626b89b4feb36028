import CodeNav.Resource.Catalog
import Mathlib.Data.List.Nodup
import Mathlib.Data.List.Sort

namespace CodeNav

/-- A step of a computation that comes to an end has come to one. -/
theorem bind_eq_ok {ε α β : Type} {x : Except ε α} {f : α → Except ε β} {b : β}
    (h : x >>= f = .ok b) : ∃ a, x = .ok a ∧ f a = .ok b := by
  cases x with
  | error e => cases h
  | ok a => exact ⟨a, rfl, h⟩

namespace Catalog

/-- What is offered under lower-case names: the built-in kinds, then what extensions offer, be it a
kind or not. -/
def offers (extensions : List Extension) : List (Text × Option ResourceFeature) :=
  ResourceFeature.builtIn.map (fun (name, f) => (name.lower, some f)) ++
    extensions.map fun e => (e.name.lower, e.load.toOption.join)

/-- Of what is offered under one name, the first. -/
def firstOffers : List (Text × Option ResourceFeature) → List (Text × Option ResourceFeature)
  | [] => []
  | o :: r => o :: (firstOffers r).filter (·.1 != o.1)

def offered (kind : Text × ResourceFeature) : Text × Option ResourceFeature := (kind.1, some kind.2)

theorem mem_map_firstOffers {name : Text} {os : List (Text × Option ResourceFeature)} :
    name ∈ (firstOffers os).map (·.1) ↔ name ∈ os.map (·.1) := by
  induction os with
  | nil => rfl
  | cons o os ih =>
    have hrest : name ∈ ((firstOffers os).filter (·.1 != o.1)).map (·.1) ↔
        name ∈ os.map (·.1) ∧ name ≠ o.1 := by
      rw [← ih]
      simp only [List.mem_map, List.mem_filter, bne_iff_ne]
      constructor
      · rintro ⟨p, ⟨hp, hne⟩, rfl⟩
        exact ⟨⟨p, hp, rfl⟩, hne⟩
      · rintro ⟨⟨p, hp, rfl⟩, hne⟩
        exact ⟨p, ⟨hp, hne⟩, rfl⟩
    rw [firstOffers, List.map_cons, List.map_cons, List.mem_cons, List.mem_cons, hrest]
    by_cases heq : name = o.1 <;> simp [heq]

theorem firstOffers_sublist (os : List (Text × Option ResourceFeature)) :
    (firstOffers os).Sublist os := by
  induction os with
  | nil => exact .slnil
  | cons o os ih => exact (List.filter_sublist.trans ih).cons_cons o

def Found.ofKinds (kinds : List (Text × ResourceFeature)) : Found :=
  ⟨kinds.map (·.2), kinds.map (·.1)⟩

def takeOffer (enabled : Option (List Text)) (f : Found) (o : Text × Option ResourceFeature) :
    Except CatalogError Found :=
  if isWanted enabled f o.1 then
    match o.2 with
    | some feature => .ok ⟨f.features ++ [feature], f.names ++ [o.1]⟩
    | none => .error .notAFeature
  else .ok f

/-- The offers that are taken when these kinds are already: the first ones under other names, if
they are enabled. -/
def wantedOffers (enabled : Option (List Text)) (kinds : List (Text × ResourceFeature))
    (os : List (Text × Option ResourceFeature)) : List (Text × Option ResourceFeature) :=
  (firstOffers os).filter (isWanted enabled (.ofKinds kinds) ·.1)

variable {enabled : Option (List Text)} {kinds : List (Text × ResourceFeature)}
  {os : List (Text × Option ResourceFeature)} {found : Found}

theorem wantedOffers_of_not_isWanted {o : Text × Option ResourceFeature}
    (h : isWanted enabled (.ofKinds kinds) o.1 = false) :
    wantedOffers enabled kinds (o :: os) = wantedOffers enabled kinds os := by
  unfold wantedOffers
  rw [firstOffers, List.filter_cons_of_neg (by simp [h]), List.filter_filter]
  apply List.filter_congr
  intro p _
  by_cases heq : p.1 = o.1 <;> simp [heq, h]

theorem isWanted_concat (kind : Text × ResourceFeature) (name : Text) :
    isWanted enabled (.ofKinds (kinds ++ [kind])) name =
      (isWanted enabled (.ofKinds kinds) name && name != kind.1) := by
  have hnames : (Found.ofKinds (kinds ++ [kind])).names =
      (Found.ofKinds kinds).names ++ [kind.1] := by
    simp [Found.ofKinds]
  unfold isWanted
  rw [hnames, List.contains_append, Bool.not_or, Bool.and_assoc, List.contains_cons,
    List.contains_nil, Bool.or_false]
  rfl

theorem wantedOffers_of_isWanted {o : Text × Option ResourceFeature}
    (h : isWanted enabled (.ofKinds kinds) o.1) (feature : ResourceFeature) :
    wantedOffers enabled kinds (o :: os) =
      o :: wantedOffers enabled (kinds ++ [(o.1, feature)]) os := by
  unfold wantedOffers
  rw [firstOffers, List.filter_cons_of_pos (by exact h), List.filter_filter]
  congr 1
  apply List.filter_congr
  intro p _
  rw [isWanted_concat]

/-- Without names all first offers are taken. -/
theorem wantedOffers_none : wantedOffers none [] os = firstOffers os := by
  unfold wantedOffers
  exact List.filter_eq_self.mpr fun o _ => rfl

/-- With names the kinds among the first offers are those that are enabled. -/
theorem wantedOffers_some (hkinds : firstOffers os = kinds.map offered) (names : List Text) :
    wantedOffers (some names) [] os = (kinds.filter (names.contains ·.1)).map offered := by
  unfold wantedOffers
  rw [hkinds, List.filter_map]
  congr 1
  apply List.filter_congr
  intro kind _
  change (names.contains kind.1 && !List.contains [] kind.1) = names.contains kind.1
  simp

/-- Taking offers ends well exactly when all those that are taken are kinds. -/
theorem foldlM_takeOffer_eq_ok_iff :
    os.foldlM (takeOffer enabled) (.ofKinds kinds) = .ok found ↔
      ∃ more, wantedOffers enabled kinds os = more.map offered ∧
        found = .ofKinds (kinds ++ more) := by
  induction os generalizing kinds with
  | nil =>
    constructor
    · intro h
      exact ⟨[], rfl, by simpa [pure, Except.pure, eq_comm] using h⟩
    · rintro ⟨more, hmore, rfl⟩
      obtain rfl : more = [] := List.map_eq_nil_iff.mp hmore.symm
      rw [List.append_nil]
      rfl
  | cons o os ih =>
    obtain ⟨name, offer⟩ := o
    rw [List.foldlM_cons]
    cases hwanted : isWanted enabled (.ofKinds kinds) name with
    | false =>
      have hstep : takeOffer enabled (.ofKinds kinds) (name, offer) = .ok (.ofKinds kinds) := by
        simp [takeOffer, hwanted]
      rw [hstep, wantedOffers_of_not_isWanted hwanted]
      exact ih
    | true =>
      cases offer with
      | none =>
        have hstep : takeOffer enabled (.ofKinds kinds) (name, none) = .error .notAFeature := by
          simp [takeOffer, hwanted]
        rw [hstep]
        constructor
        · intro h
          cases h
        · rintro ⟨more, hmore, -⟩
          unfold wantedOffers at hmore
          rw [firstOffers, List.filter_cons_of_pos (by exact hwanted)] at hmore
          cases more with
          | nil => cases hmore
          | cons k more => cases (List.cons.inj hmore).1
      | some feature =>
        have hstep : takeOffer enabled (.ofKinds kinds) (name, some feature) =
            .ok (.ofKinds (kinds ++ [(name, feature)])) := by
          unfold takeOffer
          rw [if_pos hwanted]
          simp [Found.ofKinds]
        rw [hstep, wantedOffers_of_isWanted hwanted feature]
        refine (@ih (kinds ++ [(name, feature)])).trans ?_
        constructor
        · rintro ⟨more, hmore, rfl⟩
          exact ⟨(name, feature) :: more, by rw [hmore]; rfl, by simp⟩
        · rintro ⟨more, hmore, rfl⟩
          cases more with
          | nil => cases hmore
          | cons k more =>
            obtain ⟨hk, hrest⟩ := List.cons.inj hmore
            obtain ⟨hname, hfeature⟩ := Prod.mk.inj hk
            obtain rfl : (name, feature) = k := Prod.ext hname (Option.some.inj hfeature)
            exact ⟨more, hrest, by simp⟩

/-- Extensions are taken when they all can be loaded, and then as what they offer. -/
theorem foldlM_takeExtension_eq_ok_iff {extensions : List Extension} {f : Found} :
    extensions.foldlM (takeExtension enabled) f = .ok found ↔
      (∀ e ∈ extensions, ∃ offer, e.load = .ok offer) ∧
        (extensions.map fun e => (e.name.lower, e.load.toOption.join)).foldlM
          (takeOffer enabled) f = .ok found := by
  induction extensions generalizing f with
  | nil => simp
  | cons e extensions ih =>
    rw [List.map_cons, List.foldlM_cons, List.foldlM_cons]
    cases hload : e.load with
    | error reason =>
      have hstep : takeExtension enabled f e = .error (.loadFailed e.name reason) := by
        rw [takeExtension, hload]
      rw [hstep]
      constructor
      · intro h
        cases h
      · rintro ⟨hall, -⟩
        obtain ⟨offer, hoffer⟩ := hall e List.mem_cons_self
        rw [hload] at hoffer
        cases hoffer
    | ok offer =>
      have hstep : takeExtension enabled f e = takeOffer enabled f (e.name.lower, offer) := by
        rw [takeExtension, hload]
        rfl
      have hjoin : (Except.ok offer : Except Text _).toOption.join = offer := rfl
      rw [hstep, hjoin]
      cases takeOffer enabled f (e.name.lower, offer) with
      | error err =>
        constructor
        · intro h
          cases h
        · rintro ⟨-, h⟩
          cases h
      | ok next =>
        refine (ih (f := next)).trans (and_congr_left fun _ => ?_)
        rw [List.forall_mem_cons]
        exact ⟨fun h => ⟨⟨offer, hload⟩, h⟩, fun h => h.2⟩

def gather (extensions : List Extension) (enabled : Option (List Text)) :
    Except CatalogError Found := do
  let found ← ResourceFeature.builtIn.foldlM (fun f (name, feature) => take enabled f name feature)
    ({} : Found)
  extensions.foldlM (takeExtension enabled) found

/-- Gathering ends well exactly when all extensions can be loaded and the first offers under enabled
names are kinds. -/
theorem gather_eq_ok_iff {extensions : List Extension} :
    gather extensions enabled = .ok found ↔
      (∀ e ∈ extensions, ∃ offer, e.load = .ok offer) ∧ ∃ kinds,
        wantedOffers enabled [] (offers extensions) = kinds.map offered ∧
          found = .ofKinds kinds := by
  have hsteps : gather extensions enabled =
      (ResourceFeature.builtIn.map fun (name, f) => (name.lower, some f)).foldlM
        (takeOffer enabled) (.ofKinds []) >>= extensions.foldlM (takeExtension enabled) := by
    rw [List.foldlM_map]
    rfl
  have htaken : (offers extensions).foldlM (takeOffer enabled) (.ofKinds []) = .ok found ↔
      ∃ kinds, wantedOffers enabled [] (offers extensions) = kinds.map offered ∧
        found = .ofKinds kinds :=
    foldlM_takeOffer_eq_ok_iff
  rw [← htaken, offers, List.foldlM_append, hsteps]
  constructor
  · intro h
    obtain ⟨first, hfirst, hrest⟩ := bind_eq_ok h
    obtain ⟨hload, hrest⟩ := foldlM_takeExtension_eq_ok_iff.mp hrest
    rw [hfirst]
    exact ⟨hload, hrest⟩
  · rintro ⟨hload, h⟩
    obtain ⟨first, hfirst, hrest⟩ := bind_eq_ok h
    rw [hfirst]
    exact foldlM_takeExtension_eq_ok_iff.mpr ⟨hload, hrest⟩

def checkMarkers (fs : List ResourceFeature) : Except CatalogError (List ResourceFeature) :=
  match firstOverlap? (fs.map (·.marker)) with
  | some (a, b) => .error (.overlapping a b)
  | none => .ok fs

/-- The kinds that are found, once also no name is missing. -/
def check (enabled : Option (List Text)) (found : Found) :
    Except CatalogError (List ResourceFeature) :=
  match enabled.map (missing · found.names) with
  | some (n :: ns) => .error (.unknown (n :: ns))
  | _ => checkMarkers found.features

theorem features_eq (extensions : List Extension) (names : Option (List Text)) :
    features extensions names =
      gather extensions (names.map (·.map Text.lower)) >>=
        check (names.map (·.map Text.lower)) := by
  simp only [features, gather, bind_assoc]
  refine bind_congr fun first => bind_congr fun found => ?_
  unfold check checkMarkers
  cases (names.map (·.map Text.lower)).map (missing · found.names) with
  | none => rfl
  | some l =>
    cases l with
    | nil => rfl
    | cons n l => rfl

theorem checkMarkers_eq_ok_iff {fs fs' : List ResourceFeature} :
    checkMarkers fs = .ok fs' ↔ firstOverlap? (fs.map (·.marker)) = none ∧ fs' = fs := by
  unfold checkMarkers
  split
  · next a b hsome => simp [hsome]
  · next hnone => simp [hnone, eq_comm]

theorem check_eq_ok {fs : List ResourceFeature} (h : check enabled found = .ok fs) :
    firstOverlap? (found.features.map (·.marker)) = none ∧ fs = found.features := by
  unfold check at h
  split at h
  · cases h
  · exact checkMarkers_eq_ok_iff.mp h

theorem firstOverlap?_eq_none_iff {ms : List Text} :
    firstOverlap? ms = none ↔ ms.Pairwise fun a b => overlap a b = false := by
  induction ms with
  | nil => simp [firstOverlap?]
  | cons m ms ih =>
    rw [firstOverlap?, Option.or_eq_none_iff, Option.map_eq_none_iff, List.find?_eq_none, ih,
      List.pairwise_cons]
    simp only [Bool.not_eq_true]

/-- Fewer kinds do not overlap more. -/
theorem firstOverlap?_of_sublist {ms ms' : List Text} (hsub : ms'.Sublist ms)
    (h : firstOverlap? ms = none) : firstOverlap? ms' = none :=
  firstOverlap?_eq_none_iff.mpr ((firstOverlap?_eq_none_iff.mp h).sublist hsub)

theorem check_of_missing_eq_nil {names : List Text} (h : missing names found.names = []) :
    check (some names) found = checkMarkers found.features := by
  unfold check
  rw [Option.map_some, h]

theorem check_of_missing_eq_cons {names : List Text} {n : Text} {ns : List Text}
    (h : missing names found.names = n :: ns) :
    check (some names) found = .error (.unknown (n :: ns)) := by
  unfold check
  rw [Option.map_some, h]

/-- Every kind in use has been offered. -/
theorem exists_offer_of_features {extensions : List Extension} {names : Option (List Text)}
    {fs : List ResourceFeature} (h : features extensions names = .ok fs) {f : ResourceFeature}
    (hf : f ∈ fs) : ∃ name, (name, some f) ∈ offers extensions := by
  rw [features_eq] at h
  obtain ⟨found, hgather, hcheck⟩ := bind_eq_ok h
  obtain ⟨-, kinds, hkinds, rfl⟩ := gather_eq_ok_iff.mp hgather
  obtain ⟨-, rfl⟩ := check_eq_ok hcheck
  obtain ⟨kind, hkind, rfl⟩ := List.mem_map.mp hf
  have hwanted : offered kind ∈
      wantedOffers (names.map (·.map Text.lower)) [] (offers extensions) :=
    hkinds ▸ List.mem_map_of_mem hkind
  exact ⟨kind.1, (firstOffers_sublist _).subset (List.mem_of_mem_filter hwanted)⟩

theorem mem_missing {enabled found : List Text} {name : Text} :
    name ∈ missing enabled found ↔ name ∈ enabled ∧ name ∉ found := by
  unfold missing
  rw [List.mem_mergeSort, List.mem_eraseDups, List.mem_filter]
  simp

/-- Where the first offers are kinds, those names are missing that nothing is offered under. -/
theorem mem_missing_filter (hkinds : firstOffers os = kinds.map offered) {names : List Text}
    {name : Text} :
    name ∈ missing names ((kinds.filter (names.contains ·.1)).map (·.1)) ↔
      name ∈ names ∧ name ∉ os.map (·.1) := by
  have hfirst : kinds.map (·.1) = (firstOffers os).map (·.1) := by
    rw [hkinds, List.map_map]
    rfl
  rw [mem_missing, ← mem_map_firstOffers, ← hfirst]
  refine and_congr_right fun hname => not_congr ?_
  simp only [List.mem_map, List.mem_filter, List.contains_iff_mem]
  constructor
  · rintro ⟨kind, ⟨hkind, -⟩, rfl⟩
    exact ⟨kind, hkind, rfl⟩
  · rintro ⟨kind, hkind, rfl⟩
    exact ⟨kind, ⟨hkind, hname⟩, rfl⟩

theorem nodup_eraseDups (l : List Text) : l.eraseDups.Nodup := by
  induction hlength : l.length using Nat.strong_induction_on generalizing l with
  | _ n ih =>
    cases l with
    | nil => simp
    | cons a l =>
      rw [List.eraseDups_cons]
      have hshort : (l.filter fun b => !b == a).length < n := by
        have hle := List.length_filter_le (fun b => !b == a) l
        rw [List.length_cons] at hlength
        omega
      refine List.nodup_cons.mpr ⟨?_, ih _ hshort _ rfl⟩
      rw [List.mem_eraseDups]
      simp

theorem lt_of_not_lt {a b : Text} (h : ¬b < a) (hne : a ≠ b) : a < b := by
  by_contra hab
  exact hne (Std.Trichotomous.trichotomous (r := (· < ·)) a b hab h)

theorem not_lt_trans {a b c : Text} (hab : ¬b < a) (hbc : ¬c < b) : ¬c < a := by
  intro hca
  by_cases heq : a = b
  · exact hbc (heq ▸ hca)
  · exact hbc (List.lt_trans hca (lt_of_not_lt hab heq))

/-- Missing names are reported in order, each once. -/
theorem pairwise_missing (enabled found : List Text) :
    (missing enabled found).Pairwise (· < ·) := by
  have hsort : (missing enabled found).Pairwise fun a b => !(b < a) := by
    refine List.pairwise_mergeSort ?_ ?_ _
    · intro a b c hab hbc
      simp only [Bool.not_eq_true', decide_eq_false_iff_not] at hab hbc ⊢
      exact not_lt_trans hab hbc
    · intro a b
      by_cases hab : a < b
      · simp [hab, List.lt_asymm hab]
      · simp [hab]
  have hsorted : (missing enabled found).Pairwise fun a b => ¬b < a := hsort.imp (by simp)
  have hnodup : (missing enabled found).Nodup :=
    (List.mergeSort_perm _ _).nodup_iff.mpr (nodup_eraseDups _)
  exact (hsorted.and hnodup).imp fun h => lt_of_not_lt h.1 h.2

/-- What kinds are narrowed down to by enabled names in lower case. -/
inductive Narrowed (extensions : List Extension) (kinds : List (Text × ResourceFeature))
    (enabled : List Text) : Except CatalogError (List ResourceFeature) → Prop
  | kept : (∀ name ∈ enabled, name ∈ (offers extensions).map (·.1)) →
      Narrowed extensions kinds enabled (.ok ((kinds.filter (enabled.contains ·.1)).map (·.2)))
  | unknown {names : List Text} : names ≠ [] → names.Pairwise (· < ·) →
      (∀ name, name ∈ names ↔ name ∈ enabled ∧ name ∉ (offers extensions).map (·.1)) →
      Narrowed extensions kinds enabled (.error (.unknown names))

section
variable {extensions : List Extension} {names names' : List Text}
  {r r' : Except CatalogError (List ResourceFeature)}

theorem exists_missing (hne : names ≠ [])
    (hmem : ∀ name, name ∈ names ↔ name ∈ names' ∧ name ∉ (offers extensions).map (·.1)) :
    ∃ name ∈ names', name ∉ (offers extensions).map (·.1) := by
  obtain ⟨name, hname⟩ := List.exists_mem_of_ne_nil names hne
  exact ⟨name, (hmem name).mp hname⟩

/-- Only the set of the enabled names counts. -/
theorem Narrowed.unique (hsame : ∀ name, name ∈ names ↔ name ∈ names')
    (h : Narrowed extensions kinds names r) (h' : Narrowed extensions kinds names' r') :
    r = r' := by
  cases h with
  | kept hall =>
    cases h' with
    | kept =>
      have hcontains (name : Text) : names.contains name = names'.contains name := by
        rw [Bool.eq_iff_iff, List.contains_iff_mem, List.contains_iff_mem, hsame]
      simp only [hcontains]
    | unknown hne _ hmem =>
      obtain ⟨name, henabled, hmissing⟩ := exists_missing hne hmem
      exact absurd (hall name ((hsame name).mpr henabled)) hmissing
  | unknown hne hsorted hmem =>
    cases h' with
    | kept hall =>
      obtain ⟨name, henabled, hmissing⟩ := exists_missing hne hmem
      exact absurd (hall name ((hsame name).mp henabled)) hmissing
    | unknown _ hsorted' hmem' =>
      congr 2
      -- Two lists in order are the same list once they have the same members.
      refine List.Perm.eq_of_pairwise ?_ hsorted hsorted' ?_
      · intro a b _ _ hab hba
        exact absurd hba (List.lt_asymm hab)
      · refine (List.perm_ext_iff_of_nodup (hsorted.imp Std.ne_of_lt)
          (hsorted'.imp Std.ne_of_lt)).mpr fun name => ?_
        rw [hmem, hmem', hsame]

/-- Kinds that can be in use together can be in use without some of them. -/
theorem narrowed_features (hload : ∀ e ∈ extensions, ∃ offer, e.load = .ok offer)
    (hkinds : firstOffers (offers extensions) = kinds.map offered)
    (hoverlap : firstOverlap? ((kinds.map (·.2)).map (·.marker)) = none) (enabled : List Text) :
    Narrowed extensions kinds (enabled.map Text.lower) (features extensions (some enabled)) := by
  let names := enabled.map Text.lower
  let kept := kinds.filter (names.contains ·.1)
  have hgather : gather extensions (some names) = .ok (.ofKinds kept) :=
    gather_eq_ok_iff.mpr ⟨hload, kept, wantedOffers_some hkinds names, rfl⟩
  have hresult : features extensions (some enabled) = check (some names) (.ofKinds kept) := by
    rw [features_eq, Option.map_some, hgather]
    rfl
  have hmissing (name : Text) : name ∈ missing names (kept.map (·.1)) ↔
      name ∈ names ∧ name ∉ (offers extensions).map (·.1) := mem_missing_filter hkinds
  rw [hresult]
  cases hnames : missing names (kept.map (·.1)) with
  | nil =>
    have hpass : firstOverlap? ((kept.map (·.2)).map (·.marker)) = none :=
      firstOverlap?_of_sublist ((List.filter_sublist.map _).map _) hoverlap
    have hchecked : check (some names) (.ofKinds kept) = .ok (kept.map (·.2)) :=
      (check_of_missing_eq_nil hnames).trans (checkMarkers_eq_ok_iff.mpr ⟨hpass, rfl⟩)
    rw [hchecked]
    refine .kept fun name hname => ?_
    by_contra hnot
    have hmem := (hmissing name).mpr ⟨hname, hnot⟩
    rw [hnames] at hmem
    cases hmem
  | cons n ns =>
    rw [check_of_missing_eq_cons hnames, ← hnames]
    exact .unknown (by simp [hnames]) (pairwise_missing _ _) hmissing

/-- Where all kinds are in use together, enabled names narrow them down: the kinds with these names
stay in their order, or the names that nothing is offered under are reported. Of the names only the
set counts. -/
theorem features_narrowed {fs : List ResourceFeature} (h : features extensions none = .ok fs) :
    ∃ kinds, firstOffers (offers extensions) = kinds.map offered ∧ fs = kinds.map (·.2) ∧
      (∀ enabled, Narrowed extensions kinds (enabled.map Text.lower)
        (features extensions (some enabled))) ∧
      ∀ enabled enabled' : List Text,
        (∀ name, name ∈ enabled.map Text.lower ↔ name ∈ enabled'.map Text.lower) →
        features extensions (some enabled) = features extensions (some enabled') := by
  rw [features_eq] at h
  obtain ⟨found, hgather, hcheck⟩ := bind_eq_ok h
  obtain ⟨hload, kinds, hkinds, rfl⟩ := gather_eq_ok_iff.mp hgather
  obtain ⟨hoverlap, rfl⟩ := check_eq_ok hcheck
  rw [Option.map_none, wantedOffers_none] at hkinds
  have hnarrowed := narrowed_features hload hkinds hoverlap
  exact ⟨kinds, hkinds, rfl, hnarrowed, fun enabled enabled' hsame =>
    (hnarrowed enabled).unique hsame (hnarrowed enabled')⟩

def twoExtensions : List Extension :=
  [⟨"Drawable", .ok (some (.ofFiles "drawable" "res/drawable" "png"))⟩,
    ⟨"MENU", .ok (some (.ofFiles "list" "res/list" "xml"))⟩]

theorem features_narrowed_drawable :
    features twoExtensions none =
        .ok [.layout, .menu, .string, .ofFiles "drawable" "res/drawable" "png"] ∧
      features twoExtensions (some ["DRAWABLE", "menu", "drawable"]) =
        .ok [.menu, .ofFiles "drawable" "res/drawable" "png"] ∧
      features twoExtensions (some ["zip", "Menu", "ANIM"]) =
        .error (.unknown ["anim", "zip"]) := by
  have hall : features twoExtensions none =
      .ok [.layout, .menu, .string, .ofFiles "drawable" "res/drawable" "png"] := rfl
  obtain ⟨kinds, hkinds, -, hnarrowed, -⟩ := features_narrowed hall
  have hinjective : Function.Injective offered := by
    intro a b hab
    exact Prod.ext (Prod.mk.inj hab).1 (Option.some.inj (Prod.mk.inj hab).2)
  obtain rfl : [("layout".toList, .layout), ("menu".toList, .menu), ("string".toList, .string),
      ("drawable".toList, .ofFiles "drawable" "res/drawable" "png")] = kinds :=
    List.map_injective_iff.mpr hinjective hkinds
  refine ⟨hall, (hnarrowed _).unique (fun _ => Iff.rfl) (.kept (by decide +kernel)),
    (hnarrowed _).unique (fun _ => Iff.rfl) (.unknown (by simp) (by decide +kernel) fun name => ?_)⟩
  have hnames : (["zip", "Menu", "ANIM"] : List Text).map Text.lower =
      (["zip", "menu", "anim"] : List Text) := by decide +kernel
  have hoffers : (offers twoExtensions).map (·.1) =
      (["layout", "menu", "string", "drawable", "menu"] : List Text) := by decide +kernel
  rw [hnames, hoffers]
  constructor
  · intro hname
    rcases List.mem_pair.mp hname with rfl | rfl
    · decide
    · decide
  · intro hname
    obtain ⟨henabled, hmissing⟩ := hname
    simp only [List.mem_cons, List.not_mem_nil, or_false] at henabled
    rcases henabled with rfl | rfl | rfl
    · decide
    · exact absurd (by decide) hmissing
    · decide

end

end Catalog

end CodeNav
