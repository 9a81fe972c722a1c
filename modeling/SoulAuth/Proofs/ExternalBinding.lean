import SoulAuth.Proofs.BrowserCookies
import SoulAuth.Proofs.TokenKinds

/-! # The callback belongs to the browser

Browsers start logins at a provider, come back with a state, and talk to
other endpoints and applications in between. The answers of the server travel
on their own and arrive in any order, or never. The jar of a browser says
which login it was sent out with last; a state is accepted from this browser
only for that login, and no longer once the answer to a completed callback has
arrived.
-/

namespace SoulAuth

open Framework Framework.Cookies

/-! ## Requests and answers -/

/-- The name that a line is about. -/
def ReceivedCookie.name : ReceivedCookie → Option Str
  | server c => some c.name
  | other line => lineName line

/-- What other endpoints and applications set in a browser. -/
structure OtherCookies where
  received : List ReceivedCookie
  apart : ∀ r ∈ received, r.name ≠ some oauthStateCookie

/-- What a browser asks for. `session` is what the provider and the database
    make of the callback. -/
inductive BrowserCall
  | login (authUrl : Str → Except AuthError Str) (incoming : Option Str)
  | callback (state : Option Str) (session : Except AuthError IssuedSession)
  | elsewhere (location : Str) (cookies : OtherCookies)

/-- The answer of the server. -/
def BrowserCall.answer (cfg : Config) (texts : TokenTexts) (headers : HeaderMap)
    (now : Timestamp) (nonce : Str) : BrowserCall → Except AuthError BrowserAnswer
  | login authUrl incoming => externalLogin cfg texts authUrl now nonce incoming
  | callback state session => externalCallback cfg texts headers now state session
  | elsewhere location cookies =>
    .ok ⟨location, cookies.received.map (ReceivedCookie.line cfg.cookiesSecure)⟩

/-- The state that comes with a call. -/
def BrowserCall.state : BrowserCall → Option Str
  | login _ incoming => incoming
  | callback state _ => state
  | elsewhere _ _ => none

abbrev Browser := Nat

/-- A request that the server has answered: the browser, the headers, the
    clock of the server and the nonce that it has drawn. -/
structure Handled (cfg : Config) (texts : TokenTexts) where
  browser : Browser
  headers : HeaderMap
  now : Timestamp
  nonce : Str
  call : BrowserCall
  answer : BrowserAnswer
  answered : call.answer cfg texts headers now nonce = .ok answer

/-- A cookie under a name that is checked by evaluation. -/
def serverCookie (name : Str) (hne : name ≠ []) (hplain : name.all QueryString.isUnreserved = true)
    (value : Str) (maxAge : Int) : ServerCookie where
  name := name
  value := value
  maxAge := maxAge
  name_ne := hne
  name_plain := List.all_eq_true.mp hplain

/-- The cookie with the nonce. -/
def nonceCookie (nonce : Str) (maxAge : Int) : ServerCookie :=
  serverCookie oauthStateCookie (by decide) (by decide) nonce maxAge

theorem line_serverCookie {name : Str} (hne : name ≠ [])
    (hplain : name.all QueryString.isUnreserved = true) (value : Str) (maxAge : Int)
    (secure : Bool) :
    (ReceivedCookie.server (serverCookie name hne hplain value maxAge)).line secure =
      buildCookie name value maxAge secure := rfl

theorem line_nonceCookie (nonce : Str) (maxAge : Int) (secure : Bool) :
    (nonceCookie nonce maxAge).line secure = buildCookie oauthStateCookie nonce maxAge secure := rfl

section

variable {cfg : Config} {texts : TokenTexts}

/-- The state that a login goes out with. -/
def Handled.issued (h : Handled cfg texts) : Option IssuedOAuthState :=
  match h.call with
  | .login _ incoming => (texts.resolveLoginState h.now h.nonce incoming).toOption
  | _ => none

/-- What an answer does to the cookie with the nonce: a login sets it, a
    completed callback lets it expire. -/
def Handled.sets (h : Handled cfg texts) : Option ServerCookie :=
  match h.call with
  | .login _ _ => h.issued.map fun issued => nonceCookie issued.nonce oauthStateTtlSeconds
  | .callback _ _ => some (nonceCookie [] 0)
  | .elsewhere _ _ => none

/-- The cookies of an answer arrive. -/
def Handled.arrive (h : Handled cfg texts) (https : Bool) (t : Timestamp) (jar : Jar) : Jar :=
  h.answer.cookies.foldl (fun jar line => jar.store https t line) jar

/-! ## What the answers set -/

theorem externalLogin_ok {authUrl : Str → Except AuthError Str} {now : Timestamp} {nonce : Str}
    {incoming : Option Str} {answer : BrowserAnswer}
    (h : externalLogin cfg texts authUrl now nonce incoming = .ok answer) :
    ∃ issued, texts.resolveLoginState now nonce incoming = .ok issued ∧
      answer.cookies =
        [(nonceCookie issued.nonce oauthStateTtlSeconds).line cfg.cookiesSecure] := by
  unfold externalLogin at h
  obtain ⟨issued, hissued, h⟩ := Except.exists_of_bind h
  obtain ⟨url, -, h⟩ := Except.exists_of_bind h
  cases h
  exact ⟨issued, hissued, rfl⟩

theorem externalCallback_ok {headers : HeaderMap} {now : Timestamp} {state : Option Str}
    {session : Except AuthError IssuedSession} {answer : BrowserAnswer}
    (h : externalCallback cfg texts headers now state session = .ok answer) :
    ∃ others : OtherCookies, answer.cookies =
      others.received.map (ReceivedCookie.line cfg.cookiesSecure) ++
        [(nonceCookie [] 0).line cfg.cookiesSecure] := by
  have hnames : soulauthSessionCookie ≠ oauthStateCookie ∧ oidcReturnCookie ≠ oauthStateCookie := by
    decide
  have hsession : ∀ value maxAge, (ReceivedCookie.server (serverCookie soulauthSessionCookie
      (by decide) (by decide) value maxAge)).name ≠ some oauthStateCookie := by
    intro value maxAge h
    exact hnames.1 (Option.some.inj h)
  have hback : (ReceivedCookie.server (serverCookie oidcReturnCookie (by decide) (by decide) []
      0)).name ≠ some oauthStateCookie := by
    intro h
    exact hnames.2 (Option.some.inj h)
  unfold externalCallback at h
  obtain ⟨target, -, h⟩ := Except.exists_of_bind h
  obtain ⟨issued, -, h⟩ := Except.exists_of_bind h
  obtain rfl := Except.ok.inj h
  unfold buildOAuthRedirect
  dsimp only
  generalize texts.write _ = token
  have hfirst := hsession token cookieTtlSeconds
  split
  · refine ⟨⟨_, List.forall_mem_cons.mpr ⟨hfirst, List.forall_mem_singleton.mpr hback⟩⟩, ?_⟩
    simp only [List.map_cons, List.map_nil, List.cons_append, List.nil_append, line_serverCookie,
      line_nonceCookie, buildExpiredCookie]
  · refine ⟨⟨_, List.forall_mem_singleton.mpr hfirst⟩, ?_⟩
    simp only [List.map_cons, List.map_nil, List.cons_append, List.nil_append, line_serverCookie,
      line_nonceCookie, buildExpiredCookie]

/-! ## What a browser keeps of them -/

/-- Lines of other names leave a cookie alone. -/
theorem get_others {https secure : Bool} (hsecure : secure = true → https = true) {name : Str}
    {received : List ReceivedCookie} (hapart : ∀ r ∈ received, r.name ≠ some name)
    (t : Timestamp) (jar : Jar) :
    ((received.map (ReceivedCookie.line secure)).foldl (fun jar line => jar.store https t line)
      jar).get name = jar.get name := by
  induction received generalizing jar with
  | nil => rfl
  | cons r received ih =>
    obtain ⟨hr, hrest⟩ := List.forall_mem_cons.mp hapart
    have hunset : r.sets name = none ∧ r.otherName ≠ some name := by
      cases r with
      | server c => exact ⟨if_neg fun h => hr (congrArg some h), by simp [ReceivedCookie.otherName]⟩
      | other line => exact ⟨rfl, hr⟩
    rw [List.map_cons, List.foldl_cons, ih hrest,
      get_store_received hsecure (t, r) hunset.2, hunset.1]
    rfl

/-- The line with the nonce. -/
theorem get_nonceCookie {https secure : Bool} (hsecure : secure = true → https = true)
    (nonce : Str) (maxAge : Int) (t : Timestamp) (jar : Jar) :
    (jar.store https t ((nonceCookie nonce maxAge).line secure)).get oauthStateCookie =
      some (ServerCookie.kept secure (t, nonceCookie nonce maxAge)) := by
  rw [jar.get_store (parse_line _ secure t) hsecure]
  exact if_pos rfl

/-- **What an answer does to the cookie with the nonce.** -/
theorem Handled.get_arrive (h : Handled cfg texts) {https : Bool}
    (hsecure : cfg.cookiesSecure = true → https = true) (t : Timestamp) (jar : Jar) :
    (h.arrive https t jar).get oauthStateCookie =
      ((h.sets.map fun c => (t, c)).map (ServerCookie.kept cfg.cookiesSecure)).or
        (jar.get oauthStateCookie) := by
  obtain ⟨browser, headers, now, nonce, call, answer, answered⟩ := h
  cases call with
  | login authUrl incoming =>
    obtain ⟨issued, hissued, hcookies⟩ := externalLogin_ok answered
    have hset : Handled.sets ⟨browser, headers, now, nonce, .login authUrl incoming, answer,
        answered⟩ = some (nonceCookie issued.nonce oauthStateTtlSeconds) := by
      simp [Handled.sets, Handled.issued, hissued, Except.toOption]
    unfold Handled.arrive
    rw [hset, hcookies, List.foldl_cons, List.foldl_nil, get_nonceCookie hsecure]
    simp only [Option.map_some, Option.some_or]
  | callback state session =>
    obtain ⟨others, hcookies⟩ := externalCallback_ok answered
    have hset : Handled.sets ⟨browser, headers, now, nonce, .callback state session, answer,
        answered⟩ = some (nonceCookie [] 0) := rfl
    unfold Handled.arrive
    rw [hset, hcookies, List.foldl_append, List.foldl_cons, List.foldl_nil,
      get_nonceCookie hsecure]
    simp only [Option.map_some, Option.some_or]
  | elsewhere location cookies =>
    obtain rfl := Except.ok.inj answered
    exact get_others hsecure cookies.apart t jar

end

/-! ## Browsers and messages -/

/-- The jars and the clocks of the browsers, all requests that were answered,
    the answers on their way, and those that have arrived, the last one first. -/
structure BrowserWorld (cfg : Config) (texts : TokenTexts) where
  jar : Browser → Jar
  clock : Browser → Timestamp
  answered : List (Handled cfg texts)
  inFlight : List (Handled cfg texts)
  arrived : List (Timestamp × Handled cfg texts)

section

variable {cfg : Config} {texts : TokenTexts}

/-- Nobody has asked for anything yet. -/
def BrowserWorld.start (clock : Browser → Timestamp) : BrowserWorld cfg texts where
  jar _ := Jar.empty
  clock := clock
  answered := []
  inFlight := []
  arrived := []

/-- A browser sends a request at a time of its clock. -/
structure BrowserWorld.Sends (w : BrowserWorld cfg texts) (https : Bool) (b : Browser)
    (sentAt : Timestamp) (headers : HeaderMap) : Prop where
  later : w.clock b ≤ sentAt
  shows : ShowsJar headers (w.jar b) https sentAt

/-- What can happen: a request is sent and answered, if `allowed` does not
    exclude it, and an answer arrives. A request that is refused changes
    nothing. -/
inductive BrowserWorld.Step (https : Bool)
    (allowed : BrowserWorld cfg texts → Handled cfg texts → Prop) :
    BrowserWorld cfg texts → BrowserWorld cfg texts → Prop
  | request {w : BrowserWorld cfg texts} (h : Handled cfg texts) (sentAt : Timestamp)
    (hsends : w.Sends https h.browser sentAt h.headers) (hallowed : allowed w h) :
    Step https allowed w
      { w with
        clock := Function.update w.clock h.browser sentAt
        answered := h :: w.answered
        inFlight := h :: w.inFlight }
  | arrive {w : BrowserWorld cfg texts} (before behind : List (Handled cfg texts))
    (h : Handled cfg texts) (t : Timestamp) (hflight : w.inFlight = before ++ h :: behind)
    (hlater : w.clock h.browser ≤ t) :
    Step https allowed w
      { w with
        jar := Function.update w.jar h.browser (h.arrive https t (w.jar h.browser))
        clock := Function.update w.clock h.browser t
        inFlight := before ++ behind
        arrived := (t, h) :: w.arrived }

/-- The worlds that a run reaches. -/
inductive BrowserWorld.Reached (https : Bool)
    (allowed : BrowserWorld cfg texts → Handled cfg texts → Prop) : BrowserWorld cfg texts → Prop
  | start (clock : Browser → Timestamp) : Reached https allowed (start clock)
  | step {w w' : BrowserWorld cfg texts} (hw : Reached https allowed w)
    (hstep : Step https allowed w w') : Reached https allowed w'

/-- The last answer that has set the nonce of a browser. -/
def lastNonce (b : Browser) (arrived : List (Timestamp × Handled cfg texts)) :
    Option (Timestamp × ServerCookie) :=
  arrived.findSome? fun a => if a.2.browser = b then a.2.sets.map fun c => (a.1, c) else none

/-- What holds between the jars and the answers that have arrived. -/
structure BrowserWorld.JarsKept (w : BrowserWorld cfg texts) : Prop where
  nonce : ∀ b, (w.jar b).get oauthStateCookie =
    (lastNonce b w.arrived).map (ServerCookie.kept cfg.cookiesSecure)
  past : ∀ a ∈ w.arrived, a.1 ≤ w.clock a.2.browser
  known : (∀ h ∈ w.inFlight, h ∈ w.answered) ∧ ∀ a ∈ w.arrived, a.2 ∈ w.answered

theorem jarsKept_start (clock : Browser → Timestamp) :
    (BrowserWorld.start clock : BrowserWorld cfg texts).JarsKept where
  nonce _ := rfl
  past := by simp [BrowserWorld.start]
  known := by simp [BrowserWorld.start]

theorem clock_le_update {clock : Browser → Timestamp} {b : Browser} {t : Timestamp}
    (h : clock b ≤ t) (c : Browser) : clock c ≤ Function.update clock b t c := by
  by_cases hc : c = b
  · subst hc
    rw [Function.update_self]
    exact h
  · rw [Function.update_of_ne hc]

theorem jarsKept_step {https : Bool} (hsecure : cfg.cookiesSecure = true → https = true)
    {allowed : BrowserWorld cfg texts → Handled cfg texts → Prop} {w w' : BrowserWorld cfg texts}
    (hstep : BrowserWorld.Step https allowed w w') (hw : w.JarsKept) : w'.JarsKept := by
  cases hstep with
  | request h sentAt hsends hallowed =>
    refine ⟨hw.nonce, ?_, ?_, ?_⟩
    · intro a ha
      exact (hw.past a ha).trans (clock_le_update hsends.later _)
    · intro h' hh'
      rcases List.mem_cons.mp hh' with rfl | hh'
      · exact List.mem_cons_self
      · exact List.mem_cons_of_mem _ (hw.known.1 h' hh')
    · intro a ha
      exact List.mem_cons_of_mem _ (hw.known.2 a ha)
  | arrive before behind h t hflight hlater =>
    have hmem : h ∈ w.inFlight := by
      rw [hflight]
      simp
    refine ⟨?_, ?_, ?_, ?_⟩
    · intro b
      show ((Function.update w.jar h.browser (h.arrive https t (w.jar h.browser))) b).get _ = _
      by_cases hb : b = h.browser
      · -- a response either sets the cookie or leaves the jar as it is
        subst hb
        rw [Function.update_self, h.get_arrive hsecure, hw.nonce]
        unfold lastNonce
        rw [List.findSome?_cons]
        cases h.sets <;> simp
      · have hb' : ¬ h.browser = b := fun heq => hb heq.symm
        rw [Function.update_of_ne hb, hw.nonce]
        unfold lastNonce
        rw [List.findSome?_cons]
        simp [hb']
    · intro a ha
      rcases List.mem_cons.mp ha with rfl | ha
      · exact (Function.update_self h.browser t w.clock).ge
      · exact (hw.past a ha).trans (clock_le_update hlater _)
    · intro h' hh'
      refine hw.known.1 h' ?_
      rw [hflight]
      rcases List.mem_append.mp hh' with hh' | hh'
      · exact List.mem_append_left _ hh'
      · exact List.mem_append_right _ (List.mem_cons_of_mem _ hh')
    · intro a ha
      rcases List.mem_cons.mp ha with rfl | ha
      · exact hw.known.1 h hmem
      · exact hw.known.2 a ha

theorem BrowserWorld.Reached.jarsKept {https : Bool}
    (hsecure : cfg.cookiesSecure = true → https = true)
    {allowed : BrowserWorld cfg texts → Handled cfg texts → Prop} {w : BrowserWorld cfg texts}
    (hw : BrowserWorld.Reached https allowed w) : w.JarsKept := by
  induction hw with
  | start clock => exact jarsKept_start clock
  | step _ hstep ih => exact jarsKept_step hsecure hstep ih

/-! ## Acceptance -/

theorem verifyCallbackState_ok {headers : HeaderMap} {now : Timestamp} {state target : Option Str}
    (h : texts.verifyCallbackState headers now state = .ok target) :
    ∃ text claims, state = some text ∧ texts.decodeOAuthState now text = .ok claims ∧
      cookieValue headers oauthStateCookie = some claims.nonce ∧ claims.returnTarget = target := by
  unfold TokenTexts.verifyCallbackState at h
  cases state with
  | none => cases h
  | some text =>
    dsimp only at h
    obtain ⟨claims, hclaims, h⟩ := Except.exists_of_bind h
    refine ⟨text, claims, rfl, Except.ok_of_mapError hclaims, ?_⟩
    cases hcookie : cookieValue headers oauthStateCookie with
    | none =>
      rw [hcookie] at h
      cases h
    | some nonce =>
      rw [hcookie] at h
      dsimp only at h
      by_cases heq : constantTimeEq (Utf8.encode nonce) (Utf8.encode claims.nonce) = false
      · rw [if_pos heq] at h
        cases h
      · rw [if_neg heq] at h
        have hsame := constantTimeEq_iff.mp (Bool.eq_true_of_not_eq_false heq)
        rw [Utf8.encode_inj.mp hsame]
        exact ⟨rfl, Except.ok.inj h⟩

/-- The answer that has set the nonce of a browser last is that of a login. -/
structure BrowserWorld.LastLogin (w : BrowserWorld cfg texts) (b : Browser) (t : Timestamp)
    (h : Handled cfg texts) (issued : IssuedOAuthState) : Prop where
  here : h.browser = b
  issued : h.issued = some issued
  last : ∃ newer older, w.arrived = newer ++ (t, h) :: older ∧
    ∀ a ∈ newer, a.2.browser = b → ∃ location cookies, a.2.call = .elsewhere location cookies

theorem Handled.elsewhere_of_sets (h : Handled cfg texts) (hsets : h.sets = none) :
    ∃ location cookies, h.call = .elsewhere location cookies := by
  obtain ⟨browser, headers, now, nonce, call, answer, answered⟩ := h
  cases call with
  | login authUrl incoming =>
    obtain ⟨issued, hissued, -⟩ := externalLogin_ok answered
    simp [Handled.sets, Handled.issued, hissued, Except.toOption] at hsets
  | callback state session => cases hsets
  | elsewhere location cookies => exact ⟨location, cookies, rfl⟩

/-- A cookie that is still fresh is the one of a login: what a callback leaves
    is old when it arrives. -/
theorem Handled.login_of_sets (h : Handled cfg texts) {c : ServerCookie} {t now : Timestamp}
    (hsets : h.sets = some c) (hfresh : ServerCookie.isFresh now (t, c) = true) (hpast : t ≤ now) :
    ∃ issued, h.issued = some issued ∧ c = nonceCookie issued.nonce oauthStateTtlSeconds := by
  unfold Handled.sets at hsets
  split at hsets
  · obtain ⟨issued, hissued, rfl⟩ := Option.map_eq_some_iff.mp hsets
    exact ⟨issued, hissued, rfl⟩
  · obtain rfl := Option.some.inj hsets
    -- an expired cookie has an age of 0, so it is old when it arrives
    have hlt : now < t + 0 := of_decide_eq_true hfresh
    rw [Int.add_zero] at hlt
    exact absurd hlt (Int.not_lt.mpr hpast)
  · cases hsets

/-- The nonce that a browser shows is that of its last login. -/
theorem BrowserWorld.JarsKept.nonce_shown {w : BrowserWorld cfg texts} (hw : w.JarsKept)
    {https : Bool} (hsecure : cfg.cookiesSecure = true → https = true) {b : Browser}
    {sentAt : Timestamp} {headers : HeaderMap} (hsends : w.Sends https b sentAt headers)
    {nonce : Str} (hcookie : cookieValue headers oauthStateCookie = some nonce) :
    ∃ t h issued, w.LastLogin b t h issued ∧ issued.nonce = nonce ∧
      sentAt < t + oauthStateTtlSeconds := by
  rw [cookieValue_shows hsends.shows, hw.nonce, read_kept hsecure] at hcookie
  split at hcookie
  · obtain ⟨⟨t, c⟩, hlast, hvalue⟩ := Option.map_eq_some_iff.mp hcookie
    obtain ⟨hlast, hfresh⟩ := Option.filter_eq_some_iff.mp hlast
    obtain ⟨newer, ⟨t', h⟩, older, harrived, hset, hnewer⟩ := List.findSome?_eq_some_iff.mp hlast
    have hhere : h.browser = b := by
      by_contra hne
      rw [if_neg hne] at hset
      cases hset
    rw [if_pos hhere] at hset
    obtain ⟨c', hsets, heq⟩ := Option.map_eq_some_iff.mp hset
    obtain ⟨rfl, rfl⟩ := Prod.mk.inj heq
    have hpast : t' ≤ sentAt := by
      have hmem : (t', h) ∈ w.arrived := by
        rw [harrived]
        simp
      have hclock := hw.past _ hmem
      rw [hhere] at hclock
      exact hclock.trans hsends.later
    -- the browser asks after the answer has come, so only the nonce of a login can still be fresh
    obtain ⟨issued, hissued, rfl⟩ := h.login_of_sets hsets hfresh hpast
    have hbehind : ∀ a ∈ newer, a.2.browser = b →
        ∃ location cookies, a.2.call = .elsewhere location cookies := by
      intro a ha hab
      have hnone := hnewer a ha
      rw [if_pos hab] at hnone
      exact a.2.elsewhere_of_sets (Option.map_eq_none_iff.mp hnone)
    exact ⟨t', h, issued, ⟨hhere, hissued, newer, older, harrived, hbehind⟩, hvalue,
      of_decide_eq_true hfresh⟩
  · cases hcookie

/-- **A callback is accepted from the browser that was sent to the provider.**
    In any run, the state of an accepted callback has the nonce of the login
    whose answer was the last one to set it in this very browser, less than
    ten minutes before; no answer to a completed callback has arrived there
    since. -/
theorem callback_bound {https : Bool} (hsecure : cfg.cookiesSecure = true → https = true)
    {allowed : BrowserWorld cfg texts → Handled cfg texts → Prop} {w : BrowserWorld cfg texts}
    (hw : BrowserWorld.Reached https allowed w) {b : Browser} {sentAt : Timestamp}
    {headers : HeaderMap} (hsends : w.Sends https b sentAt headers) {now : Timestamp}
    {state target : Option Str}
    (haccepted : texts.verifyCallbackState headers now state = .ok target) :
    ∃ text claims t h issued, state = some text ∧
      texts.decodeOAuthState now text = .ok claims ∧ claims.returnTarget = target ∧
      w.LastLogin b t h issued ∧ issued.nonce = claims.nonce ∧
      sentAt < t + oauthStateTtlSeconds := by
  obtain ⟨text, claims, hstate, hclaims, hcookie, htarget⟩ := verifyCallbackState_ok haccepted
  obtain ⟨t, h, issued, hlast, hnonce, hyoung⟩ :=
    (hw.jarsKept hsecure).nonce_shown hsecure hsends hcookie
  exact ⟨text, claims, t, h, issued, hstate, hclaims, htarget, hlast, hnonce, hyoung⟩

/-! ## States that nobody forges -/

/-- The state that the server draws for a login without one. -/
def Handled.minted (h : Handled cfg texts) : Option SignedToken :=
  match h.call with
  | .login _ none => (createOAuthStateToken none h.nonce h.now).toOption
  | _ => none

/-- The signature of a text is one that the server has made: for a login that
    it has answered, or as another kind of token. -/
def BrowserWorld.Vouched (w : BrowserWorld cfg texts) (text : Str) : Prop :=
  ∀ token, texts.read text = some token →
    (∃ h ∈ w.answered, h.minted = some token) ∨ ∃ kind, kind ≠ .oauthState ∧ Minted kind token

/-- Nobody forges a state, and no nonce is drawn twice. -/
structure BrowserWorld.Genuine (w : BrowserWorld cfg texts) (h : Handled cfg texts) : Prop where
  vouched : ∀ text, h.call.state = some text → w.Vouched text
  drawn : ∀ h' ∈ w.answered, h'.nonce ≠ h.nonce

/-- What holds of the states in a run without forgeries. -/
structure BrowserWorld.StatesKept (w : BrowserWorld cfg texts) : Prop where
  vouched : ∀ h ∈ w.answered, ∀ text, h.call.state = some text → w.Vouched text
  unique : ∀ h ∈ w.answered, ∀ h' ∈ w.answered, h.nonce = h'.nonce → h.minted = h'.minted

theorem statesKept_step {https : Bool} {w w' : BrowserWorld cfg texts}
    (hstep : BrowserWorld.Step https BrowserWorld.Genuine w w') (hw : w.StatesKept) :
    w'.StatesKept := by
  cases hstep with
  | request h sentAt hsends hgenuine =>
    have hmono : ∀ text, w.Vouched text → ∀ token, texts.read text = some token →
        (∃ h' ∈ h :: w.answered, h'.minted = some token) ∨
          ∃ kind, kind ≠ .oauthState ∧ Minted kind token := by
      intro text hvouched token hread
      rcases hvouched token hread with hown | hother
      · obtain ⟨h', hh', hminted⟩ := hown
        exact .inl ⟨h', List.mem_cons_of_mem _ hh', hminted⟩
      · exact .inr hother
    constructor
    · intro h' hh' text htext
      rcases List.mem_cons.mp hh' with rfl | hh'
      · exact hmono text (hgenuine.vouched text htext)
      · exact hmono text (hw.vouched h' hh' text htext)
    -- two new requests are one, and a new nonce is none of the old ones
    · intro h₁ hmem₁ h₂ hmem₂ hnonce
      rcases List.mem_cons.mp hmem₁ with hnew₁ | hold₁
      · rcases List.mem_cons.mp hmem₂ with hnew₂ | hold₂
        · rw [hnew₁, hnew₂]
        · rw [hnew₁] at hnonce
          exact absurd hnonce.symm (hgenuine.drawn h₂ hold₂)
      · rcases List.mem_cons.mp hmem₂ with hnew₂ | hold₂
        · rw [hnew₂] at hnonce
          exact absurd hnonce (hgenuine.drawn h₁ hold₁)
        · exact hw.unique h₁ hold₁ h₂ hold₂ hnonce
  | arrive before behind h t hflight hlater => exact ⟨hw.vouched, hw.unique⟩

theorem BrowserWorld.Reached.statesKept {https : Bool} {w : BrowserWorld cfg texts}
    (hw : BrowserWorld.Reached https BrowserWorld.Genuine w) : w.StatesKept := by
  induction hw with
  | start clock =>
    constructor
    · intro h hh
      cases hh
    · intro h hh
      cases hh
  | step _ hstep ih => exact statesKept_step hstep ih

theorem Handled.minted_eq {h : Handled cfg texts} {token : SignedToken}
    (hminted : h.minted = some token) :
    token = OAuthStateClaims.format.serialize
      ⟨h.nonce, none, h.now + oauthStateTtlSeconds, h.now⟩ := by
  unfold Handled.minted at hminted
  split at hminted
  · cases hcreate : createOAuthStateToken none h.nonce h.now with
    | error e =>
      rw [hcreate] at hminted
      cases hminted
    | ok token' =>
      rw [hcreate] at hminted
      obtain rfl := Option.some.inj hminted
      exact (createOAuthStateToken_ok hcreate).2
  · cases hminted

/-- What the server reads in a state that it has drawn. -/
theorem decodeOAuthStateToken_minted {h : Handled cfg texts} {token : SignedToken}
    {claims : OAuthStateClaims} {now : Timestamp} (hminted : h.minted = some token)
    (hdecode : decodeOAuthStateToken now token = .ok claims) :
    claims.nonce = h.nonce ∧ claims.returnTarget = none ∧ now ≤ h.now + oauthStateTtlSeconds := by
  have hexp : (OAuthStateClaims.format.serialize
      ⟨h.nonce, none, h.now + oauthStateTtlSeconds, h.now⟩).intField "exp" =
        .ok (h.now + oauthStateTtlSeconds) := rfl
  rw [Handled.minted_eq hminted] at hdecode
  unfold decodeOAuthStateToken at hdecode
  rw [OAuthStateClaims.format.decode_signed 0 hexp, Int.sub_zero] at hdecode
  by_cases hlate : h.now + oauthStateTtlSeconds < now
  · rw [if_pos hlate] at hdecode
    cases hdecode
  · rw [if_neg hlate] at hdecode
    cases hdecode
    exact ⟨rfl, rfl, Int.not_lt.mp hlate⟩

/-- A vouched text that passes for a state is one that the server has drawn. -/
theorem BrowserWorld.Vouched.drawn {w : BrowserWorld cfg texts} {text : Str}
    (hvouched : w.Vouched text) {now : Timestamp} {claims : OAuthStateClaims}
    (hdecode : texts.decodeOAuthState now text = .ok claims) :
    ∃ m ∈ w.answered, texts.read text = m.minted ∧ claims.nonce = m.nonce ∧
      claims.returnTarget = none ∧ now ≤ m.now + oauthStateTtlSeconds := by
  unfold TokenTexts.decodeOAuthState at hdecode
  cases hread : texts.read text with
  | none =>
    rw [hread] at hdecode
    cases hdecode
  | some token =>
    rw [hread] at hdecode
    rcases hvouched token hread with hown | hother
    · obtain ⟨m, hm, hminted⟩ := hown
      obtain ⟨hnonce, htarget, hlive⟩ := decodeOAuthStateToken_minted hminted hdecode
      exact ⟨m, hm, hminted.symm, hnonce, htarget, hlive⟩
    · obtain ⟨kind, hkind, hminted⟩ := hother
      exact absurd hdecode (decodeOAuthStateToken_lacks (hminted.lacks_mark hkind.symm) claims)

/-- A login goes out with the state that it has drawn itself, or with the one
    that was passed in. -/
theorem Handled.issued_drawn {w : BrowserWorld cfg texts} (hw : w.StatesKept)
    {h : Handled cfg texts} (hmem : h ∈ w.answered) {issued : IssuedOAuthState}
    (hissued : h.issued = some issued) :
    ∃ m ∈ w.answered, texts.read issued.token = m.minted ∧ issued.nonce = m.nonce := by
  have hvouched := hw.vouched h hmem
  obtain ⟨browser, headers, now, nonce, call, answer, answered⟩ := h
  cases call with
  | callback state session => cases hissued
  | elsewhere location cookies => cases hissued
  | login authUrl incoming =>
    cases incoming with
    | none =>
      have hcreate : createOAuthStateToken none nonce now = .ok (OAuthStateClaims.format.serialize
          ⟨nonce, none, now + oauthStateTtlSeconds, now⟩) := rfl
      refine ⟨_, hmem, ?_⟩
      obtain rfl := Option.some.inj hissued
      exact ⟨texts.read_write _, rfl⟩
    -- a state that was passed in is one that the server has drawn before
    | some text =>
      simp only [Handled.issued, TokenTexts.resolveLoginState] at hissued
      cases hdecode : texts.decodeOAuthState now text with
      | error e =>
        rw [hdecode] at hissued
        cases hissued
      | ok claims =>
        rw [hdecode] at hissued
        obtain rfl := Option.some.inj hissued
        obtain ⟨m, hm, hread, hnonce, -, -⟩ := (hvouched text rfl).drawn hdecode
        exact ⟨m, hm, hread, hnonce⟩

/-- **The state of an accepted callback is the one that the browser was sent
    out with.** In a run without forged states and repeated nonces it is the
    very token of the login that set the nonce last in this browser, drawn by
    the server less than ten minutes ago, and it never carries a target of its
    own. -/
theorem callback_own_state {https : Bool} (hsecure : cfg.cookiesSecure = true → https = true)
    {w : BrowserWorld cfg texts} (hw : BrowserWorld.Reached https BrowserWorld.Genuine w)
    {b : Browser} {sentAt : Timestamp} {headers : HeaderMap}
    (hsends : w.Sends https b sentAt headers) {now : Timestamp} {state target : Option Str}
    (hvouched : ∀ text, state = some text → w.Vouched text)
    (haccepted : texts.verifyCallbackState headers now state = .ok target) :
    target = none ∧ ∃ text t h issued, state = some text ∧ w.LastLogin b t h issued ∧
      texts.read text = texts.read issued.token ∧
      ∃ m ∈ w.answered, texts.read text = m.minted ∧ now ≤ m.now + oauthStateTtlSeconds := by
  obtain ⟨text, claims, hstate, hclaims, hcookie, htarget⟩ := verifyCallbackState_ok haccepted
  have hkept := hw.jarsKept hsecure
  obtain ⟨t, h, issued, hlast, hnonce, -⟩ := hkept.nonce_shown hsecure hsends hcookie
  have hmem : h ∈ w.answered := by
    obtain ⟨newer, older, harrived, -⟩ := hlast.last
    refine hkept.known.2 (t, h) ?_
    rw [harrived]
    simp
  obtain ⟨m, hm, hread, hdrawn, hnone, hlive⟩ := (hvouched text hstate).drawn hclaims
  obtain ⟨m', hm', hread', hdrawn'⟩ := Handled.issued_drawn hw.statesKept hmem hlast.issued
  -- two states with one nonce are one state
  have hsame : m.minted = m'.minted := by
    refine hw.statesKept.unique m hm m' hm' ?_
    rw [← hdrawn, ← hdrawn', hnonce]
  refine ⟨htarget.symm.trans hnone, text, t, h, issued, hstate, hlast, ?_, m, hm, hread, hlive⟩
  rw [hread, hread', hsame]

end

end SoulAuth

namespace SoulAuth.Sample

open Framework Framework.Cookies

/-! ## Texts of tokens

The words of a token, with a mark before each letter and a dot behind each
word, stand for its text.
-/

def writeWord (word : Str) : Str := (word.flatMap fun c => ['x', c]) ++ ['.']

def readWords (word : Str) : Str → Option (List Str)
  | [] => if word = [] then some [] else none
  | '.' :: rest => (readWords [] rest).map (word :: ·)
  | 'x' :: c :: rest => readWords (word ++ [c]) rest
  | _ => none

theorem readWords_writeWord (done word rest : Str) :
    readWords done (writeWord word ++ rest) = (readWords [] rest).map ((done ++ word) :: ·) := by
  induction word generalizing done with
  | nil =>
    show (readWords [] rest).map (done :: ·) = _
    rw [List.append_nil]
  | cons c word ih =>
    show readWords (done ++ [c]) (writeWord word ++ rest) = _
    rw [ih, List.append_assoc]
    rfl

theorem readWords_flatMap (words : List Str) :
    readWords [] (words.flatMap writeWord) = some words := by
  induction words with
  | nil => rfl
  | cons word words ih =>
    rw [List.flatMap_cons, readWords_writeWord, ih]
    rfl

def claimWords (member : String × ClaimValue) : List Str :=
  match member.2 with
  | .null => [member.1.toList, "null".toList, []]
  | .int n => [member.1.toList, "int".toList, (toString n).toList]
  | .string s => [member.1.toList, "string".toList, s]

def readClaim (kind value : Str) : Option ClaimValue :=
  if kind = "null".toList then some .null
  else if kind = "int".toList then (readInt value).map .int
  else if kind = "string".toList then some (.string value)
  else none

def readClaims : List Str → Option (List (String × ClaimValue))
  | [] => some []
  | name :: kind :: value :: rest => do
    let claim ← readClaim kind value
    let claims ← readClaims rest
    return (String.ofList name, claim) :: claims
  | _ => none

theorem readClaims_flatMap (members : List (String × ClaimValue)) :
    readClaims (members.flatMap claimWords) = some members := by
  induction members with
  | nil => rfl
  | cons member members ih =>
    obtain ⟨name, value⟩ := member
    rw [List.flatMap_cons]
    cases value with
    | null =>
      show (do let claims ← readClaims (members.flatMap claimWords); _) = _
      rw [ih]
      simp
    | int n =>
      show (do let claim ← (readInt (toString n).toList).map ClaimValue.int; _) = _
      rw [readInt_toString]
      show (do let claims ← readClaims (members.flatMap claimWords); _) = _
      rw [ih]
      simp
    | string s =>
      show (do let claims ← readClaims (members.flatMap claimWords); _) = _
      rw [ih]
      simp

def plainTexts : TokenTexts where
  write token := (token.members.flatMap claimWords).flatMap writeWord
  read text := (readWords [] text).bind fun words => (readClaims words).map .mk
  read_write token := by
    rw [readWords_flatMap, Option.bind_some, readClaims_flatMap]
    rfl

/-! ## Three logins -/

def providerUrl (state : Str) : Except AuthError Str :=
  .ok ("https://provider/?state=".toList ++ state)

/-- The state that the server draws for a login. -/
def loginState (now : Timestamp) (nonce : Str) : SignedToken :=
  OAuthStateClaims.format.serialize ⟨nonce, none, now + 600, now⟩

/-- A browser is sent to the provider. -/
def loginOf (browser : Browser) (now : Timestamp) (nonce : Str) :
    Handled bareConfig plainTexts where
  browser := browser
  headers := []
  now := now
  nonce := nonce
  call := .login providerUrl none
  answer := oauthLoginRedirect bareConfig
    ("https://provider/?state=".toList ++ plainTexts.write (loginState now nonce)) nonce
  answered := rfl

/-- A browser asks for a login. -/
def ask (w : BrowserWorld bareConfig plainTexts) (h : Handled bareConfig plainTexts)
    (sentAt : Timestamp) : BrowserWorld bareConfig plainTexts :=
  { w with
    clock := Function.update w.clock h.browser sentAt
    answered := h :: w.answered
    inFlight := h :: w.inFlight }

/-- An answer arrives, and `rest` are still on their way. -/
def receive (w : BrowserWorld bareConfig plainTexts) (h : Handled bareConfig plainTexts)
    (t : Timestamp) (rest : List (Handled bareConfig plainTexts)) :
    BrowserWorld bareConfig plainTexts :=
  { w with
    jar := Function.update w.jar h.browser (h.arrive false t (w.jar h.browser))
    clock := Function.update w.clock h.browser t
    inFlight := rest
    arrived := (t, h) :: w.arrived }

theorem reached_ask {w : BrowserWorld bareConfig plainTexts} {h : Handled bareConfig plainTexts}
    {sentAt : Timestamp} (hw : BrowserWorld.Reached false BrowserWorld.Genuine w)
    (hsends : w.Sends false h.browser sentAt h.headers) (hgenuine : w.Genuine h) :
    BrowserWorld.Reached false BrowserWorld.Genuine (ask w h sentAt) :=
  hw.step (.request h sentAt hsends hgenuine)

def firstLogin : Handled bareConfig plainTexts := loginOf 0 10 "7f3a".toList

def strangeLogin : Handled bareConfig plainTexts := loginOf 1 11 "51c0".toList

def secondLogin : Handled bareConfig plainTexts := loginOf 0 12 "9d2e".toList

/-- Browser 0 begins a login, browser 1 another one, and browser 0 a second. -/
def askedWorld : BrowserWorld bareConfig plainTexts :=
  ask (ask (ask (.start fun _ => 0) firstLogin 9) strangeLogin 10) secondLogin 11

/-- The answer to the second login arrives before the one to the first, and
    the one to the other browser is still on its way. -/
def sentWorld : BrowserWorld bareConfig plainTexts :=
  receive (receive askedWorld secondLogin 15 [strangeLogin, firstLogin]) firstLogin 17
    [strangeLogin]

theorem reached_askedWorld : BrowserWorld.Reached false BrowserWorld.Genuine askedWorld := by
  have hnone : ∀ b now nonce text, (loginOf b now nonce).call.state ≠ some text := nofun
  have hfirst : BrowserWorld.Reached false BrowserWorld.Genuine (ask _ firstLogin 9) :=
    reached_ask (.start fun _ => 0) ⟨by decide, rfl⟩
      ⟨fun _ h => absurd h (hnone _ _ _ _), by decide⟩
  have hother : BrowserWorld.Reached false BrowserWorld.Genuine (ask _ strangeLogin 10) :=
    reached_ask hfirst ⟨by decide, rfl⟩ ⟨fun _ h => absurd h (hnone _ _ _ _), by decide⟩
  exact reached_ask hother ⟨by decide, rfl⟩ ⟨fun _ h => absurd h (hnone _ _ _ _), by decide⟩

theorem reached_sentWorld : BrowserWorld.Reached false BrowserWorld.Genuine sentWorld := by
  have hsecond := reached_askedWorld.step
    (.arrive [] [strangeLogin, firstLogin] secondLogin 15 rfl (by decide))
  exact hsecond.step (.arrive [strangeLogin] [] firstLogin 17 rfl (by decide))

theorem sends_callback :
    sentWorld.Sends false 0 50 (cookieHeaders (sentWorld.jar 0) false 50) where
  later := by decide
  shows := showsJar_cookieHeaders _ _ _

/-- The state that browser 0 was sent to the provider with. -/
def firstState : Str := plainTexts.write (loginState 10 "7f3a".toList)

theorem decode_firstState :
    plainTexts.decodeOAuthState 50 firstState = .ok ⟨"7f3a".toList, none, 610, 10⟩ := by
  rw [firstState, plainTexts.decodeOAuthState_read (plainTexts.read_write _)]
  rfl

theorem accepted_callback :
    plainTexts.verifyCallbackState (cookieHeaders (sentWorld.jar 0) false 50) 50
      (some firstState) = .ok none := by
  have hcookie : cookieValue (cookieHeaders (sentWorld.jar 0) false 50) oauthStateCookie =
      some "7f3a".toList := by decide
  unfold TokenTexts.verifyCallbackState
  dsimp only
  rw [decode_firstState, hcookie]
  rfl

theorem callback_bound_sample :
    ∃ text claims t h issued, some firstState = some text ∧
      plainTexts.decodeOAuthState 50 text = .ok claims ∧ claims.returnTarget = none ∧
      sentWorld.LastLogin 0 t h issued ∧ issued.nonce = claims.nonce ∧
      50 < t + oauthStateTtlSeconds :=
  callback_bound (by decide) reached_sentWorld sends_callback accepted_callback

theorem callback_own_state_sample :
    (none : Option Str) = none ∧ ∃ text t h issued,
      some firstState = some text ∧ sentWorld.LastLogin 0 t h issued ∧
      plainTexts.read text = plainTexts.read issued.token ∧
      ∃ m ∈ sentWorld.answered, plainTexts.read text = m.minted ∧
        50 ≤ m.now + oauthStateTtlSeconds := by
  refine callback_own_state (by decide) reached_sentWorld sends_callback ?_ accepted_callback
  intro text htext token hread
  obtain rfl := Option.some.inj htext
  rw [firstState, plainTexts.read_write] at hread
  obtain rfl := Option.some.inj hread
  exact .inl ⟨firstLogin, by simp [sentWorld, receive, askedWorld, ask], rfl⟩

end SoulAuth.Sample
