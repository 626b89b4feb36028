import CodeNav.Proofs.WebAddresses

namespace CodeNav

namespace Url

/-- Why the host part of an address is refused: one bracket stands in it without the other, what
stands between them is no address of version 6 or of one to come, or a character looks like one of
the signs that divide an address. -/
inductive HostRefused (host : Text) : Prop where
  | unbalanced (h : ¬('[' ∈ host ↔ ']' ∈ host))
  | future (hopen : '[' ∈ host) (hv : "v".toList <+: bracketed host)
      (h : ¬isFutureIp (bracketed host))
  | noAddress (hopen : '[' ∈ host) (hv : ¬"v".toList <+: bracketed host)
      (h : ¬(isIpv6 (bracketed host) ∧ ¬isIpv4 (bracketed host)))
  | lookalike {c : Char} (hc : c ∈ host) (h : c.toNat ∈ delimiterLookalikes)

def Refused (url : Text) : Prop :=
  ∃ host, authority? (splitScheme (cleaned url)).2 = some host ∧ HostRefused host

theorem authorityError?_isSome_iff {host : Text} :
    (authorityError? host).isSome ↔ HostRefused host := by
  have hbalance : host.contains '[' != host.contains ']' ↔ ¬('[' ∈ host ↔ ']' ∈ host) := by
    rw [bne_iff_ne, ne_eq, Bool.eq_iff_iff, List.contains_iff_mem, List.contains_iff_mem]
  have hlook : (host.any fun c => delimiterLookalikes.contains c.toNat) ↔
      ∃ c ∈ host, c.toNat ∈ delimiterLookalikes := by
    simp
  unfold authorityError?
  dsimp only
  rw [Option.isSome_or, Bool.or_eq_true]
  constructor
  · intro h
    rcases h with h | h
    · split at h
      · next hne => exact .unbalanced (hbalance.mp hne)
      · split at h
        · next hopen =>
          have hopen : '[' ∈ host := List.contains_iff_mem.mp hopen
          split at h
          · next hv =>
            split at h
            · cases h
            · next hfuture =>
              exact .future hopen (List.isPrefixOf_iff_prefix.mp hv) hfuture
          · next hv =>
            have hv : ¬"v".toList <+: bracketed host := mt List.isPrefixOf_iff_prefix.mpr hv
            split at h
            · next h4 => exact .noAddress hopen hv fun hboth => hboth.2 h4
            · split at h
              · cases h
              · next h6 => exact .noAddress hopen hv fun hboth => h6 hboth.1
        · cases h
    · split at h
      · next hany =>
        obtain ⟨c, hc, hlike⟩ := hlook.mp hany
        exact .lookalike hc hlike
      · cases h
  · intro h
    by_cases hne : ¬('[' ∈ host ↔ ']' ∈ host)
    · rw [if_pos (hbalance.mpr hne)]
      exact .inl rfl
    · rw [if_neg (mt hbalance.mp hne)]
      cases h with
      | unbalanced h => exact absurd h hne
      | future hopen hv h =>
        rw [if_pos (List.contains_iff_mem.mpr hopen),
          if_pos (List.isPrefixOf_iff_prefix.mpr hv), if_neg h]
        exact .inl rfl
      | noAddress hopen hv h =>
        rw [if_pos (List.contains_iff_mem.mpr hopen),
          if_neg (mt List.isPrefixOf_iff_prefix.mp hv)]
        refine .inl ?_
        split
        · rfl
        · next h4 =>
          rw [if_neg fun h6 => h ⟨h6, h4⟩]
          rfl
      | lookalike hc h =>
        rw [if_pos (hlook.mpr ⟨_, hc, h⟩)]
        exact .inr rfl

theorem scheme_eq_error_iff {url : Text} : (∃ e, scheme url = .error e) ↔ Refused url := by
  unfold scheme Refused
  dsimp only
  cases hauthority : authority? (splitScheme (cleaned url)).2 with
  | none => simp
  | some host =>
    simp only [Option.bind_some, Option.some_inj, exists_eq_left', ← authorityError?_isSome_iff]
    cases authorityError? host <;> simp

theorem isWeb_eq_error_iff {url : Text} : (∃ e, isWeb url = .error e) ↔ Refused url := by
  rw [← scheme_eq_error_iff, isWeb]
  cases scheme url <;> simp [Except.map]

theorem isWeb_eq_true_iff {url : Text} :
    isWeb url = .ok true ↔ ∃ s ∈ webSchemes, scheme url = .ok s := by
  rw [isWeb]
  cases scheme url with
  | error e => simp [Except.map]
  | ok s =>
    have hmem : s ∈ webSchemes ↔ s = "http".toList ∨ s = "https".toList := by simp [webSchemes]
    simp only [Except.map, Except.ok.injEq, Bool.or_eq_true, decide_eq_true_eq, ← hmem]
    constructor
    · intro hs
      exact ⟨s, hs, rfl⟩
    · intro h
      obtain ⟨t, ht, hst⟩ := h
      rwa [hst]

end Url

def WebReply.IsFound (r : WebReply) : Prop := ∃ status body, r = .response status body ∧
  status.getD 200 = 200

def WebReply.HasText (r : WebReply) (t : Text) : Prop := ∃ status body, r = .response status body ∧
  Utf8.decode body = .ok t

theorem WebReply.HasText.unique {r : WebReply} {t u : Text} (ht : r.HasText t) (hu : r.HasText u) :
    t = u := by
  obtain ⟨status, body, rfl, ht⟩ := ht
  obtain ⟨_, _, hreply, hu⟩ := hu
  obtain ⟨rfl, rfl⟩ := WebReply.response.inj hreply
  rw [ht] at hu
  exact Except.ok.inj hu

namespace GitHub

variable {web : Web} (hweb : ∀ u m, web u ≠ .systemError m) {url : Text}

theorem lookUp_of_refused {e : UrlError} (h : Url.isWeb (Url.stripAnchor url) = .error e) :
    (lookUp web url).answer = .error (.address e.message) := by
  simp only [lookUp, h]

theorem lookUp_of_elsewhere (h : Url.isWeb (Url.stripAnchor url) = .ok false) :
    (lookUp web url).answer = .ok false := by
  simp only [lookUp, h]

theorem fetch_of_refused {e : UrlError} (h : Url.isWeb (Url.raw url) = .error e) :
    (fetch web url).answer = .error (.address e.message) := by
  simp only [fetch, h]

theorem fetch_of_elsewhere (h : Url.isWeb (Url.raw url) = .ok false) :
    ∃ m, (fetch web url).answer = .error (.fetch m) := by
  simp only [fetch, h]
  exact ⟨_, rfl⟩

section
include hweb

theorem exists_lookUp_of_isWeb (h : Url.isWeb (Url.stripAnchor url) = .ok true) :
    ∃ found, (lookUp web url).answer = .ok found ∧
      (found ↔ (web (requestUrl (Url.stripAnchor url))).IsFound) := by
  simp only [lookUp, h]
  split
  · next code hreply => exact ⟨false, rfl, by simp [WebReply.IsFound, hreply]⟩
  · next hreply => exact ⟨false, rfl, by simp [WebReply.IsFound, hreply]⟩
  · next hreply => exact ⟨false, rfl, by simp [WebReply.IsFound, hreply]⟩
  · next hreply => exact ⟨false, rfl, by simp [WebReply.IsFound, hreply]⟩
  · next m hreply => exact absurd hreply (hweb _ m)
  · next status body hreply =>
    refine ⟨_, rfl, ?_⟩
    rw [hreply]
    cases status <;> simp [WebReply.IsFound]

theorem fetch_of_isWeb (h : Url.isWeb (Url.raw url) = .ok true) :
    (∃ t, (fetch web url).answer = .ok t ∧ (web (requestUrl (Url.raw url))).HasText t) ∨
      (∃ m, (fetch web url).answer = .error (.fetch m)) ∧
        ∀ t, ¬(web (requestUrl (Url.raw url))).HasText t := by
  simp only [fetch, h]
  split
  · next code hreply => exact .inr ⟨⟨_, rfl⟩, by simp [WebReply.HasText, hreply]⟩
  · next hreply => exact .inr ⟨⟨_, rfl⟩, by simp [WebReply.HasText, hreply]⟩
  · next hreply => exact .inr ⟨⟨_, rfl⟩, by simp [WebReply.HasText, hreply]⟩
  · next hreply => exact .inr ⟨⟨_, rfl⟩, by simp [WebReply.HasText, hreply]⟩
  · next m hreply => exact absurd hreply (hweb _ m)
  · next status body hreply =>
    cases hdecode : Utf8.decode body with
    | ok t => exact .inl ⟨t, rfl, status, body, hreply, hdecode⟩
    | error e => exact .inr ⟨⟨_, rfl⟩, by simp [WebReply.HasText, hreply, hdecode]⟩

theorem lookUp_eq_ok_iff :
    (∃ found, (lookUp web url).answer = .ok found) ↔ ¬Url.Refused (Url.stripAnchor url) := by
  rw [← Url.isWeb_eq_error_iff]
  cases h : Url.isWeb (Url.stripAnchor url) with
  | error e => simp [lookUp_of_refused h]
  | ok isWeb =>
    refine iff_of_true ?_ (by simp)
    cases isWeb with
    | false => exact ⟨false, lookUp_of_elsewhere h⟩
    | true =>
      obtain ⟨found, hfound, -⟩ := exists_lookUp_of_isWeb hweb h
      exact ⟨found, hfound⟩

theorem lookUp_eq_true_iff : (lookUp web url).answer = .ok true ↔
    (∃ s ∈ Url.webSchemes, Url.scheme (Url.stripAnchor url) = .ok s) ∧
      (web (requestUrl (Url.stripAnchor url))).IsFound := by
  rw [← Url.isWeb_eq_true_iff]
  cases h : Url.isWeb (Url.stripAnchor url) with
  | error e => simp [lookUp_of_refused h]
  | ok isWeb =>
    cases isWeb with
    | false => simp [lookUp_of_elsewhere h]
    | true =>
      obtain ⟨found, hanswer, hfound⟩ := exists_lookUp_of_isWeb hweb h
      simp [hanswer, hfound]

theorem fetch_regular_iff : ((∃ t, (fetch web url).answer = .ok t) ∨
    ∃ m, (fetch web url).answer = .error (.fetch m)) ↔ ¬Url.Refused (Url.raw url) := by
  rw [← Url.isWeb_eq_error_iff]
  cases h : Url.isWeb (Url.raw url) with
  | error e => simp [fetch_of_refused h]
  | ok isWeb =>
    refine iff_of_true ?_ (by simp)
    cases isWeb with
    | false => exact .inr (fetch_of_elsewhere h)
    | true =>
      rcases fetch_of_isWeb hweb h with ⟨t, ht, -⟩ | ⟨hm, -⟩
      · exact .inl ⟨t, ht⟩
      · exact .inr hm

theorem fetch_eq_ok_iff {t : Text} : (fetch web url).answer = .ok t ↔
    (∃ s ∈ Url.webSchemes, Url.scheme (Url.raw url) = .ok s) ∧
      (web (requestUrl (Url.raw url))).HasText t := by
  rw [← Url.isWeb_eq_true_iff]
  cases h : Url.isWeb (Url.raw url) with
  | error e => simp [fetch_of_refused h]
  | ok isWeb =>
    cases isWeb with
    | false =>
      obtain ⟨m, hm⟩ : ∃ m, (fetch web url).answer = .error (.fetch m) := fetch_of_elsewhere h
      simp [hm]
    | true =>
      rcases fetch_of_isWeb hweb h with ⟨u, hu, htext⟩ | ⟨⟨m, hm⟩, hnone⟩
      · have hsame : u = t ↔ (web (requestUrl (Url.raw url))).HasText t := by
          constructor
          · rintro rfl
            exact htext
          · exact htext.unique
        simp [hu, hsame]
      · simp [hm, hnone]

end

/-- An anchor makes no difference. -/
theorem lookUp_anchor (web : Web) (url anchor : Text) :
    (lookUp web (Url.stripAnchor url ++ '#' :: anchor)).answer = (lookUp web url).answer := by
  simp only [lookUp, Url.stripAnchor_anchor]
  split
  · rfl
  · rfl
  · split <;> rfl

/-- Short of a failure of the system, an address is looked up or fetched in a regular way exactly
when its host is not refused: a file is found where its address, apart from its anchor, is one of
the web and replies with status 200, and else is missing; the text that is fetched is the one that
the reply holds, and without one the fetch fails. -/
theorem answers_iff_not_refused (hweb : ∀ u m, web u ≠ .systemError m) (url : Text) :
    ((∃ found, (lookUp web url).answer = .ok found) ↔ ¬Url.Refused (Url.stripAnchor url)) ∧
      ((lookUp web url).answer = .ok true ↔
        (∃ s ∈ Url.webSchemes, Url.scheme (Url.stripAnchor url) = .ok s) ∧
          (web (requestUrl (Url.stripAnchor url))).IsFound) ∧
      (∀ anchor, (lookUp web (Url.stripAnchor url ++ '#' :: anchor)).answer =
        (lookUp web url).answer) ∧
      (((∃ t, (fetch web url).answer = .ok t) ∨ ∃ m, (fetch web url).answer = .error (.fetch m)) ↔
        ¬Url.Refused (Url.raw url)) ∧
      ∀ t, (fetch web url).answer = .ok t ↔
        (∃ s ∈ Url.webSchemes, Url.scheme (Url.raw url) = .ok s) ∧
          (web (requestUrl (Url.raw url))).HasText t :=
  ⟨lookUp_eq_ok_iff hweb, lookUp_eq_true_iff hweb, lookUp_anchor web url, fetch_regular_iff hweb,
    fun _ => fetch_eq_ok_iff hweb⟩

def singleFile : Web := fun url =>
  if url = "https://example.com/a.kt" then .response none [0x6F, 0x6B] else .httpError 404

theorem answers_iff_not_refused_file :
    (∀ u m, singleFile u ≠ .systemError m) ∧
      (lookUp singleFile "https://example.com/a.kt#L3").answer = .ok true ∧
      ¬Url.Refused (Url.stripAnchor "https://example.com/a.kt#L3") ∧
      (fetch singleFile "https://example.com/a.kt#L3").answer = .ok "ok" := by
  have hweb : ∀ u m, singleFile u ≠ .systemError m := by
    intro u m
    unfold singleFile
    split <;> exact WebReply.noConfusion
  obtain ⟨hregular, hfound, -, -, htext⟩ :=
    answers_iff_not_refused hweb "https://example.com/a.kt#L3"
  have hscheme : ∃ s ∈ Url.webSchemes, Url.scheme "https://example.com/a.kt" = .ok s :=
    ⟨"https", by decide, rfl⟩
  have hanswer := hfound.mpr ⟨hscheme, none, _, rfl, rfl⟩
  exact ⟨hweb, hanswer, hregular.mp ⟨true, hanswer⟩,
    (htext "ok").mpr ⟨hscheme, none, _, rfl, by decide +kernel⟩⟩

/-- A bracket that is not closed is refused before the web is asked. -/
theorem lookUp_of_open_bracket :
    (lookUp (fun _ => .httpError 404) "https://[oops/x.kt").answer =
        .error (.address "Invalid IPv6 URL") ∧
      (fetch (fun _ => .httpError 404) "https://[oops/x.kt").answer =
        .error (.address "Invalid IPv6 URL") := by
  constructor
  · rfl
  · rfl

end GitHub

end CodeNav
