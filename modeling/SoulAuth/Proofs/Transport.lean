import SoulAuth.Framework.Uri
import SoulAuth.Routes.OidcClient

/-! # Plaintext is for loopback hosts

The redirect URIs of clients and the OAuth URLs of the configuration may use
plaintext when their host is a loopback host. The program finds the host by
cutting at the first slash or colon, without looking at user information and
without asking for the scheme; here the cut is compared with the grammar of
URIs, and the texts on which the two differ are told.
-/

namespace SoulAuth

open Framework

/-! ## The two readings -/

/-- The loopback hosts, as a URI spells them. -/
def loopbackHosts : List Str := ["localhost".toList, "127.0.0.1".toList, "[::1]".toList]

/-- The scheme is `https`, or it is `http` and the host a loopback host. -/
def SecureTransport (url : Str) : Prop :=
  Uri.scheme url = some "https".toList ∨
    Uri.scheme url = some "http".toList ∧
      ∃ authority, Uri.authority url = some authority ∧ authority.host ∈ loopbackHosts

/-- The program takes the URL for one of a loopback host. -/
def LooksLocal (url : Str) : Prop := ∃ host, hostOf url = some host ∧ isLoopbackHost host = true

/-- A loopback host, and perhaps a port. -/
def IsLocal (text : Str) : Prop :=
  ∃ host ∈ loopbackHosts, ∃ port, text = host ++ port ∧ Uri.IsPort port

/-- The text begins with a loopback host, and goes on in the authority with
    nothing, with a port, or with user information before a loopback host. -/
def StaysLocal (text : Str) : Prop :=
  ∃ host ∈ loopbackHosts, ∃ behind, text = host ++ behind ∧
    let tail := behind.takeWhile (!Uri.endsAuthority ·)
    Uri.IsPort tail ∨
      ∃ info rest, tail = ':' :: info ++ '@' :: rest ∧ host ≠ "[::1]".toList ∧
        '@' ∉ info ∧ Uri.wellFormed Uri.isInfoChar info = true ∧ IsLocal rest

/-- What the URL looks like is what it says: it has the scheme `https`, or the
    scheme `http` and a host that is not continued. -/
def Straight (url : Str) : Prop :=
  (url.take 6).map Char.toLower = "https:".toList ∨
    (url.take 7).map Char.toLower = "http://".toList ∧ StaysLocal (url.drop 7)

/-- A URL that looks local without being so. -/
def Deceptive (url : Str) : Prop := LooksLocal url ∧ ¬ Straight url

/-- Whatever request names the URI, it is secure if the request is accepted. -/
def RedirectGateSound (uri : Str) : Prop :=
  ∀ request, validateRedirectUris request = .ok () → uri ∈ request.uris → SecureTransport uri

/-- The endpoint of this value is secure if the value is accepted. A blank
    value configures none. -/
def BaseGateSound (name : String) (value : Option Str) : Prop :=
  checkOauthBaseUrl name value = .ok () → ∀ url, filled value = some url → SecureTransport url

/-- The same of the address that an identity provider calls back. -/
def CallbackGateSound (value : Option Str) : Prop :=
  checkOauthRedirectUrl value = .ok () → ∀ url, filled value = some url → SecureTransport url

/-- A request with one redirect URI. -/
def requestFor (uri : Str) : CreateOidcClientRequest where
  clientName := []
  clientType := .confidentialClient
  redirectUris := [uri]
  postLogoutRedirectUris := none
  allowedScopes := none
  allowedGrantTypes := none
  allowedResponseTypes := none
  requirePkce := none
  accessTokenLifetime := none
  refreshTokenLifetime := none
  idTokenLifetime := none

/-! ## Cutting -/

section

variable {url name rest host text tail t : Str} {c : Char}

theorem stripPrefix_isSome {p s : Str} (h : (Str.stripPrefix p s).isSome = true) :
    ∃ t, s = p ++ t := by
  induction p generalizing s with
  | nil => exact ⟨s, rfl⟩
  | cons a p ih =>
    cases s with
    | nil => cases h
    | cons c s =>
      by_cases hac : a = c
      · subst hac
        rw [Str.stripPrefix, if_pos rfl] at h
        obtain ⟨t, rfl⟩ := ih h
        exact ⟨t, rfl⟩
      · rw [Str.stripPrefix, if_neg hac] at h
        cases h

/-- A name without colons ends at the first separator. -/
theorem afterScheme_append (hname : ':' ∉ name) :
    afterScheme (name ++ "://".toList ++ rest) = some rest := by
  induction name with
  | nil => rfl
  | cons c name ih =>
    have hc : ¬ ':' = c := fun h => hname (h ▸ List.mem_cons_self)
    have hskip : Str.stripPrefix "://".toList (c :: (name ++ "://".toList ++ rest)) = none := by
      show (if ':' = c then _ else none) = none
      rw [if_neg hc]
    show afterScheme (c :: (name ++ "://".toList ++ rest)) = some rest
    rw [afterScheme, hskip]
    exact ih fun h => hname (by simp [h])

theorem isLoopbackHost_literal (h : isLoopbackHost ('[' :: text ++ [']']) = true) :
    text = "::1".toList := by
  rw [isLoopbackHost, decide_eq_true_eq] at h
  simp only [List.mem_cons, List.not_mem_nil, or_false] at h
  rcases h with h | h | h | h
  · exact absurd (List.cons.inj h).1 (by decide)
  · exact absurd (List.cons.inj h).1 (by decide)
  · have heq : text ++ [']'] = "::1".toList ++ [']'] := (List.cons.inj h).2
    exact List.append_cancel_right heq
  · exact absurd (List.cons.inj h).1 (by decide)

theorem isLoopbackHost_name (hcolon : ':' ∉ host) (h : isLoopbackHost host = true) :
    host ∈ loopbackHosts := by
  rw [isLoopbackHost, decide_eq_true_eq] at h
  simp only [List.mem_cons, List.not_mem_nil, or_false] at h
  rcases h with rfl | rfl | rfl | rfl
  · decide
  · decide
  · exact absurd (by decide) hcolon
  · exact absurd (by decide) hcolon

/-- The text begins with a loopback host, which a name ends before a slash or a
    colon. -/
def StartsLocal (text : Str) : Prop :=
  ∃ host ∈ loopbackHosts, ∃ behind, text = host ++ behind ∧
    (host = "[::1]".toList ∨ behind = [] ∨ (∃ t, behind = '/' :: t) ∨ ∃ t, behind = ':' :: t)

/-- What a URL that looks local has behind its scheme. -/
theorem LooksLocal.start (hname : ':' ∉ name) (h : LooksLocal (name ++ "://".toList ++ rest)) :
    StartsLocal rest := by
  obtain ⟨host, hhost, hlocal⟩ := h
  rw [hostOf, afterScheme_append hname, Option.bind_eq_bind, Option.bind_some] at hhost
  split at hhost
  · next inner =>
    -- an address in brackets
    split at hhost
    · next hbracket =>
      obtain ⟨literal, behind, rfl, hliteral⟩ := List.eq_append_cons_of_mem hbracket
      rw [Uri.takeWhile_behind hliteral] at hhost
      cases hhost
      obtain rfl := isLoopbackHost_literal hlocal
      exact ⟨"[::1]".toList, by decide, behind, rfl, .inl rfl⟩
    · cases hhost
  · -- a name
    dsimp only at hhost
    split at hhost
    · cases hhost
    · cases hhost
      let p : Char → Bool := fun c => c ≠ '/' && c ≠ ':'
      have hcolon : ':' ∉ rest.takeWhile p := by
        intro hmem
        have hp := List.mem_takeWhile_imp hmem
        simp [p] at hp
      refine ⟨rest.takeWhile p, isLoopbackHost_name hcolon hlocal, rest.dropWhile p,
        List.takeWhile_append_dropWhile.symm, .inr ?_⟩
      cases hbehind : rest.dropWhile p with
      | nil => exact .inl rfl
      | cons c t =>
        have hc := Uri.dropWhile_cons_of hbehind
        by_cases hslash : c = '/'
        · exact .inr (.inl ⟨t, by rw [hslash]⟩)
        · by_cases hcolon : c = ':'
          · exact .inr (.inr ⟨t, by rw [hcolon]⟩)
          · simp [p, hslash, hcolon] at hc

/-! ## The authority of a loopback host -/

/-- The host is read as it is, whatever follows an address in brackets. -/
theorem readHost_local (hhost : host ∈ loopbackHosts)
    (htail : host = "[::1]".toList ∨ tail = [] ∨ ∃ t, tail = ':' :: t) :
    Uri.readHost (host ++ tail) = (Uri.readPort tail).map (host, ·) := by
  by_cases hliteral : host = "[::1]".toList
  · subst hliteral
    show Uri.readHost ('[' :: "::1".toList ++ ']' :: tail) = _
    exact Uri.readHost_literal (by decide) (by decide)
  · simp only [loopbackHosts, List.mem_cons, List.not_mem_nil, or_false] at hhost
    have hname := htail.resolve_left hliteral
    rcases hhost with rfl | rfl | rfl
    · exact Uri.readHost_name (by decide) (by decide) (by decide) (by decide) hname
    · exact Uri.readHost_name (by decide) (by decide) (by decide) (by decide) hname
    · exact absurd rfl hliteral

/-- What is left of the text when the host is taken off the authority. -/
theorem takeWhile_local (hhost : host ∈ loopbackHosts) (behind : Str) :
    (host ++ behind).takeWhile (!Uri.endsAuthority ·) =
      host ++ behind.takeWhile (!Uri.endsAuthority ·) := by
  apply List.takeWhile_append_of_pos
  have hall : (loopbackHosts.all fun host => host.all fun c => !Uri.endsAuthority c) = true := by
    decide
  exact List.all_eq_true.mp (List.all_eq_true.mp hall host hhost)

theorem no_at_local (hhost : host ∈ loopbackHosts) : '@' ∉ host := by
  have hall : ∀ host ∈ loopbackHosts, '@' ∉ host := by decide
  exact hall host hhost

theorem no_at_port (h : Uri.IsPort tail) : '@' ∉ tail := by
  rcases h with rfl | ⟨digits, rfl, hdigits⟩
  · exact List.not_mem_nil
  · intro hmem
    rcases List.mem_cons.mp hmem with h | h
    · cases h
    · have hdigit := List.all_eq_true.mp hdigits _ h
      cases hdigit

theorem IsLocal.readHost (h : IsLocal text) :
    ∃ host port, Uri.readHost text = some (host, port) ∧ host ∈ loopbackHosts := by
  obtain ⟨host, hhost, tail, rfl, htail⟩ := h
  obtain ⟨port, hport⟩ := htail.readPort
  have hshape : tail = [] ∨ ∃ t, tail = ':' :: t :=
    htail.imp id fun ⟨digits, hdigits, _⟩ => ⟨digits, hdigits⟩
  exact ⟨host, port, by rw [readHost_local hhost (.inr hshape), hport]; rfl, hhost⟩

/-- The names are user information as they are, the address is none. -/
theorem wellFormed_local (hhost : host ∈ loopbackHosts) :
    Uri.wellFormed Uri.isInfoChar (host ++ text) = true ↔
      host ≠ "[::1]".toList ∧ Uri.wellFormed Uri.isInfoChar text = true := by
  simp only [loopbackHosts, List.mem_cons, List.not_mem_nil, or_false] at hhost
  rcases hhost with rfl | rfl | rfl
  · rw [Uri.wellFormed_append (Str.forall_mem_of_all (by decide))]
    simp
  · rw [Uri.wellFormed_append (Str.forall_mem_of_all (by decide))]
    simp
  · constructor
    · intro h
      have hfirst : Uri.wellFormed Uri.isInfoChar ('[' :: ("::1]".toList ++ text)) = true := h
      rw [Uri.wellFormed_cons (by decide)] at hfirst
      exact absurd hfirst (by simp [show Uri.isInfoChar '[' = false by decide])
    · intro h
      exact absurd rfl h.1

/-- A text that stays local has the authority of a loopback host. -/
theorem StaysLocal.readAuthority (h : StaysLocal text) :
    ∃ a, Uri.readAuthority (text.takeWhile (!Uri.endsAuthority ·)) = some a ∧
      a.host ∈ loopbackHosts := by
  obtain ⟨host, hhost, behind, rfl, htail⟩ := h
  rw [takeWhile_local hhost]
  rcases htail with htail | ⟨info, rest, htail, hname, hinfo, hformed, hrest⟩
  · have hat : '@' ∉ host ++ behind.takeWhile (!Uri.endsAuthority ·) := by
      intro hmem
      rcases List.mem_append.mp hmem with h | h
      · exact no_at_local hhost h
      · exact no_at_port htail h
    obtain ⟨host', port, hread, hhost'⟩ := IsLocal.readHost ⟨host, hhost, _, rfl, htail⟩
    rw [Uri.readAuthority_host hat, hread]
    exact ⟨_, rfl, hhost'⟩
  · have hat : '@' ∉ host ++ ':' :: info := by
      intro hmem
      rcases List.mem_append.mp hmem with h | h
      · exact no_at_local hhost h
      · rcases List.mem_cons.mp h with h | h
        · cases h
        · exact hinfo h
    have hcolon : Uri.wellFormed Uri.isInfoChar (':' :: info) = true := by
      rw [Uri.wellFormed_cons (by decide), hformed]
      decide
    obtain ⟨host', port, hread, hhost'⟩ := hrest.readHost
    rw [htail, ← List.append_assoc, Uri.readAuthority_info hat,
      if_pos ((wellFormed_local hhost).mpr ⟨hname, hcolon⟩), hread]
    exact ⟨_, rfl, hhost'⟩

/-- The other way round: the authority of a loopback host, behind the start
    that the program has seen. -/
theorem staysLocal_of_authority {a : Uri.Authority} (hstart : StartsLocal text)
    (ha : Uri.readAuthority (text.takeWhile (!Uri.endsAuthority ·)) = some a)
    (hlocal : a.host ∈ loopbackHosts) : StaysLocal text := by
  obtain ⟨host, hhost, behind, rfl, hbehind⟩ := hstart
  rw [takeWhile_local hhost] at ha
  refine ⟨host, hhost, behind, rfl, ?_⟩
  have hshape : host = "[::1]".toList ∨ behind.takeWhile (!Uri.endsAuthority ·) = [] ∨
      ∃ t, behind.takeWhile (!Uri.endsAuthority ·) = ':' :: t := by
    rcases hbehind with h | rfl | ⟨t, rfl⟩ | ⟨t, rfl⟩
    · exact .inl h
    · exact .inr (.inl rfl)
    · exact .inr (.inl rfl)
    · exact .inr (.inr ⟨_, rfl⟩)
  generalize behind.takeWhile (!Uri.endsAuthority ·) = tail at ha hshape
  show Uri.IsPort tail ∨ _
  by_cases hat : '@' ∈ tail
  · -- user information in front of another host
    obtain ⟨front, rest, rfl, hfront⟩ := List.eq_append_cons_of_mem hat
    have hno : '@' ∉ host ++ front := by
      intro hmem
      exact (List.mem_append.mp hmem).elim (no_at_local hhost) hfront
    rw [← List.append_assoc, Uri.readAuthority_info hno] at ha
    split at ha
    · next hformed =>
      obtain ⟨hname, hformed⟩ := (wellFormed_local hhost).mp hformed
      obtain ⟨⟨host', port⟩, hread, rfl⟩ := Option.map_eq_some_iff.mp ha
      obtain ⟨port', hrest, hport⟩ := Uri.readHost_eq hread
      rcases hshape.resolve_left hname with h | ⟨t, ht⟩
      · exact absurd h (by simp)
      · cases front with
        | nil => cases ht
        | cons c info =>
          cases ht
          rw [Uri.wellFormed_cons (by decide)] at hformed
          exact .inr ⟨info, rest, rfl, hname, fun h => hfront (List.mem_cons_of_mem _ h),
            (Bool.and_eq_true_iff.mp hformed).2, host', hlocal, port', hrest, hport⟩
    · cases ha
  · -- nothing but a port
    have hno : '@' ∉ host ++ tail := by
      intro hmem
      exact (List.mem_append.mp hmem).elim (no_at_local hhost) hat
    rw [Uri.readAuthority_host hno, readHost_local hhost hshape] at ha
    obtain ⟨read, hread, -⟩ := Option.map_eq_some_iff.mp ha
    obtain ⟨port, hport, -⟩ := Option.map_eq_some_iff.mp hread
    exact .inl (Uri.readPort_isPort hport)

/-! ## Schemes in any case -/

/-- A text in lower case that is a name and a separator comes from such a text. -/
theorem cut_lower {k : Nat} (scheme sep : Str) (hsep : (sep.all fun c => !c.isAlpha) = true)
    (h : (url.take k).map Char.toLower = scheme ++ sep) :
    ∃ name, url = name ++ sep ++ url.drop k ∧ name.map Char.toLower = scheme := by
  obtain ⟨name, behind, htake, hname, hbehind⟩ := List.map_eq_append_iff.mp h
  have hplain : ∀ c ∈ sep, c.isAlpha = false := by
    intro c hc
    simpa using List.all_eq_true.mp hsep c hc
  rw [Uri.map_toLower_eq hplain hbehind] at htake
  exact ⟨name, by rw [← htake, List.take_append_drop], hname⟩

theorem map_toLower_append (sep rest : Str) {scheme : Str} {k : Nat}
    (hname : name.map Char.toLower = scheme) (hsep : sep.map Char.toLower = sep)
    (hlength : (scheme ++ sep).length = k) :
    ((name ++ sep ++ rest).take k).map Char.toLower = scheme ++ sep ∧
      (name ++ sep ++ rest).drop k = rest := by
  have hk : k = (name ++ sep).length := by
    rw [← hlength, ← hname, List.length_append, List.length_append, List.length_map]
  subst hk
  rw [List.take_left, List.drop_left, List.map_append, hname, hsep]
  exact ⟨rfl, rfl⟩

/-! ## What is secure -/

theorem straight_of_https {rest : Str} (h : name.map Char.toLower = "https".toList) :
    Straight (name ++ ':' :: rest) := by
  have hcut : ((name ++ [':'] ++ rest).take 6).map Char.toLower = "https".toList ++ [':'] :=
    (map_toLower_append [':'] rest h (by decide) (by decide)).1
  rw [List.append_assoc] at hcut
  exact .inl hcut

theorem secure_of_straight (h : Straight url) : SecureTransport url := by
  rcases h with h | ⟨h, hlocal⟩
  · obtain ⟨name, hurl, hname⟩ := cut_lower "https".toList [':'] rfl h
    obtain ⟨hcolon, hscheme⟩ := Uri.isScheme_of_lower hname (by decide) (by decide)
    left
    rw [hurl, List.append_assoc]
    exact hname ▸ Uri.scheme_eq hcolon hscheme
  · obtain ⟨name, hurl, hname⟩ := cut_lower "http".toList "://".toList rfl h
    obtain ⟨hcolon, hscheme⟩ := Uri.isScheme_of_lower hname (by decide) (by decide)
    obtain ⟨a, ha, hhost⟩ := hlocal.readAuthority
    right
    constructor
    · rw [hurl, List.append_assoc]
      exact hname ▸ Uri.scheme_eq hcolon hscheme
    · refine ⟨a, ?_, hhost⟩
      rw [hurl, Uri.authority_eq hcolon hscheme, ha]

/-- **What is secure among the URLs that look local.** -/
theorem secureTransport_iff (hlooks : LooksLocal url) : SecureTransport url ↔ Straight url := by
  constructor
  · intro h
    rcases h with h | ⟨h, a, ha, hhost⟩
    · obtain ⟨name, rest, rfl, -, -, hname⟩ := Uri.scheme_some h
      exact straight_of_https hname
    · obtain ⟨name, rest, rfl, hcolon, hscheme, hread⟩ := Uri.authority_some ha
      have hname : name.map Char.toLower = "http".toList :=
        Option.some.inj (hscheme.symm.trans h)
      obtain ⟨htake, hdrop⟩ := map_toLower_append (k := 7) "://".toList rest hname
        (by decide) (by decide)
      right
      constructor
      · exact htake
      · rw [hdrop]
        exact staysLocal_of_authority (hlooks.start hcolon) hread hhost
  · exact secure_of_straight

/-! ## The checks -/

/-- What the checks let through. -/
def PassesTransport (url : Str) : Prop :=
  (Str.stripPrefix "https://".toList url).isSome = true ∨ LooksLocal url

theorem checkRedirectUri_iff :
    checkRedirectUri url = .ok () ↔ '#' ∉ url ∧ PassesTransport url := by
  unfold checkRedirectUri PassesTransport LooksLocal
  generalize (Str.stripPrefix "https://".toList url).isSome = https
  by_cases hfragment : '#' ∈ url
  · simp [hfragment]
  · by_cases hhttps : https = true
    · simp [hfragment, hhttps]
    · rw [if_neg hfragment, if_neg hhttps]
      cases hhost : hostOf url with
      | none => simp [hhttps]
      | some host => cases hlocal : isLoopbackHost host <;> simp [hfragment, hhttps, hlocal]

theorem checkTransport_iff {name remote relative : String} :
    checkTransport name remote relative url = .ok () ↔ PassesTransport url := by
  unfold checkTransport PassesTransport LooksLocal
  generalize (Str.stripPrefix "https://".toList url).isSome = https
  by_cases hhttps : https = true
  · simp [hhttps]
  · rw [if_neg hhttps]
    cases hhost : hostOf url with
    | none => simp [hhttps]
    | some host => cases hlocal : isLoopbackHost host <;> simp [hhttps, hlocal]

/-- The checks are sound except for deceptive URLs. -/
theorem passes_secure_iff : (PassesTransport url → SecureTransport url) ↔ ¬ Deceptive url := by
  constructor
  · intro h hdeceptive
    obtain ⟨hlooks, hnot⟩ := hdeceptive
    exact hnot ((secureTransport_iff hlooks).mp (h (.inr hlooks)))
  · intro h hpasses
    rcases hpasses with hhttps | hlooks
    · obtain ⟨rest, rfl⟩ := stripPrefix_isSome hhttps
      have hhttps' : Straight ("https".toList ++ ':' :: ("//".toList ++ rest)) :=
        straight_of_https rfl
      exact secure_of_straight hhttps'
    · by_cases hstraight : Straight url
      · exact secure_of_straight hstraight
      · exact absurd ⟨hlooks, hstraight⟩ h

theorem redirectGateSound_iff (uri : Str) : RedirectGateSound uri ↔ '#' ∈ uri ∨ ¬ Deceptive uri := by
  rw [← passes_secure_iff]
  constructor
  · intro h
    by_cases hfragment : '#' ∈ uri
    · exact .inl hfragment
    · right
      intro hpasses
      have hchecked : checkRedirectUri uri = .ok () := checkRedirectUri_iff.mpr ⟨hfragment, hpasses⟩
      have hvalid : validateRedirectUris (requestFor uri) = .ok () := by
        show forM [uri] checkRedirectUri = _
        rw [List.forM_cons, hchecked]
        rfl
      exact h _ hvalid List.mem_cons_self
  · intro h request hvalid hmem
    have hchecked := forM_checkRedirectUri_ok hvalid uri hmem
    obtain ⟨hfragment, hpasses⟩ := checkRedirectUri_iff.mp hchecked
    exact h.resolve_left hfragment hpasses

theorem baseGateSound_iff (name : String) (value : Option Str) :
    BaseGateSound name value ↔
      ∀ url, filled value = some url → url.getLast? = some '/' ∨ ¬ Deceptive url := by
  unfold BaseGateSound checkOauthBaseUrl
  cases hfilled : filled value with
  | none => simp
  | some raw =>
    simp only [Option.some.injEq, forall_eq']
    by_cases hslash : raw.getLast? = some '/'
    · simp [hslash]
    · rw [if_neg hslash, checkTransport_iff, passes_secure_iff]
      simp [hslash]

theorem callbackGateSound_iff (value : Option Str) :
    CallbackGateSound value ↔ ∀ url, filled value = some url → ¬ Deceptive url := by
  unfold CallbackGateSound checkOauthRedirectUrl
  cases hfilled : filled value with
  | none => simp
  | some raw =>
    simp only [Option.some.injEq, forall_eq']
    rw [checkTransport_iff, passes_secure_iff]

end

/-- **The plaintext gate.** What the three checks accept is secure, exactly
    when no accepted text is a deceptive URL. -/
theorem transport_gate_iff (uri : Str) (name : String) (value : Option Str) :
    (RedirectGateSound uri ↔ '#' ∈ uri ∨ ¬ Deceptive uri) ∧
      (BaseGateSound name value ↔
        ∀ url, filled value = some url → url.getLast? = some '/' ∨ ¬ Deceptive url) ∧
      (CallbackGateSound value ↔ ∀ url, filled value = some url → ¬ Deceptive url) :=
  ⟨redirectGateSound_iff uri, baseGateSound_iff name value, callbackGateSound_iff value⟩

namespace Sample

/-- A password in front of the host hides where the URL goes. -/
theorem transport_gate_fails :
    let url := "http://localhost:x@evil.example/cb".toList
    ¬ (RedirectGateSound url ∨ BaseGateSound "GOOGLE_OAUTH_BASE_URL" (some url) ∨
      CallbackGateSound (some url)) := by
  intro url
  have hscheme : Uri.scheme url = some "http".toList := by decide
  have hauthority : Uri.authority url =
      some ⟨some "localhost:x".toList, "evil.example".toList, none⟩ := by decide
  have hinsecure : ¬ SecureTransport url := by
    intro h
    rcases h with h | ⟨-, a, ha, hhost⟩
    · rw [hscheme] at h
      exact absurd h (by decide)
    · rw [hauthority] at ha
      cases ha
      exact absurd hhost (by decide)
  intro h
  rcases h with h | h | h
  · exact hinsecure (h (requestFor url) (by decide) List.mem_cons_self)
  · exact hinsecure (h (by decide) url (by decide))
  · exact hinsecure (h (by decide) url (by decide))

end Sample

end SoulAuth
