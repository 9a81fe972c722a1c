import SoulAuth.Routes.BrowserCookies

/-! # Cookies come back

A browser takes the lines of the server apart, keeps the cookies beside those
of other applications on the host, and shows them in one header. What the
server reads there is what it has written last.
-/

namespace SoulAuth

open Framework Framework.Cookies

/-! ## Letters -/

/-- A letter that a header may have. -/
def isHeaderChar (c : Char) : Bool := 32 ≤ c.toNat && c.toNat < 127 || c = '\t'

theorem HeaderValue.toStr_eq (v : HeaderValue) :
    HeaderValue.toStr v = if v.all isHeaderChar then some v else none := rfl

/-- In a header the blanks are the whitespace. -/
theorem isWhitespace_of_header {c : Char} (hc : isHeaderChar c = true)
    (hblank : isBlank c = false) : Str.isWhitespace c = false := by
  unfold isHeaderChar at hc
  unfold isBlank at hblank
  simp only [Bool.or_eq_true, Bool.and_eq_true, decide_eq_true_eq] at hc
  simp only [Bool.or_eq_false_iff, decide_eq_false_iff_not] at hblank
  rcases hc with hc | hc
  · have hspace : c.toNat ≠ 32 := by
      intro h
      refine hblank.1 ?_
      rw [← Char.ofNat_toNat c, h]
    exact Str.isWhitespace_visible (by omega)
  · exact absurd hc hblank.2

theorem isUnreserved_visible {c : Char} (h : QueryString.isUnreserved c = true) :
    32 < c.toNat ∧ c.toNat < 127 := by
  unfold QueryString.isUnreserved at h
  simp only [Bool.or_eq_true, decide_eq_true_eq] at h
  rcases h with (((h | rfl) | rfl) | rfl) | rfl
  · exact Str.isAlphanum_visible h
  all_goals decide

/-- The letters of names and of encoded values. -/
theorem visible_not_blank {c : Char} (h : 32 < c.toNat ∧ c.toNat < 127) : isBlank c = false := by
  unfold isBlank
  simp only [Bool.or_eq_false_iff, decide_eq_false_iff_not]
  constructor
  · rintro rfl
    exact absurd h.1 (by decide)
  · rintro rfl
    exact absurd h.1 (by decide)

theorem encode_visible {s : Str} {c : Char} (h : c ∈ QueryString.encode s) :
    32 < c.toNat ∧ c.toNat < 127 := by
  rcases QueryString.mem_encode h with h | rfl
  · exact isUnreserved_visible h
  · decide

/-! ## What the server writes -/

/-- A cookie of the server: a name that needs no encoding, any value, and an
    age. -/
structure ServerCookie where
  name : Str
  value : Str
  maxAge : Int
  name_ne : name ≠ []
  name_plain : QueryString.IsName name

/-- The line of a cookie. -/
def ServerCookie.line (c : ServerCookie) (secure : Bool) : Str :=
  buildCookie c.name c.value c.maxAge secure

/-- Name and encoded value. -/
def ServerCookie.pair (c : ServerCookie) : Pair where
  name := c.name
  value := QueryString.encode c.value
  name_ne := c.name_ne
  name_tidy := tidy_of_forall fun d hd => visible_not_blank (isUnreserved_visible (c.name_plain d hd))
  value_tidy := tidy_of_forall fun _ hd => visible_not_blank (encode_visible hd)
  name_free :=
    ⟨fun h => QueryString.isUnreserved_ne (c.name_plain _ h) (by decide) rfl,
     fun h => QueryString.isUnreserved_ne (c.name_plain _ h) (by decide) rfl⟩
  value_free := QueryString.not_mem_encode (by decide) (by decide)

/-- The attributes behind them. -/
def cookieAttributes (maxAge : Int) (secure : Bool) : List Str :=
  ["Path=/".toList, "Max-Age=".toList ++ (toString maxAge).toList, "HttpOnly".toList] ++
    (if secure then ["Secure".toList] else []) ++ ["SameSite=Lax".toList]

theorem ServerCookie.line_eq (c : ServerCookie) (secure : Bool) :
    c.line secure = joined c.pair.text (cookieAttributes c.maxAge secure) := by
  cases secure <;>
    simp [line, buildCookie, joined, cookieAttributes, Pair.text, pair]

/-! ## Ages -/

theorem toList_repr (n : Nat) : (Nat.repr n).toList = Nat.toDigits 10 n := by
  simp [Nat.repr]

theorem isDigit_toDigits (n : Nat) : (Nat.toDigits 10 n).all Char.isDigit = true := by
  rw [List.all_eq_true]
  intro c hc
  exact Nat.isDigit_of_mem_toDigits (by decide) (by decide) hc

theorem readInt_digits {digits : List Char} (hne : digits ≠ [])
    (hall : digits.all Char.isDigit = true) :
    readInt digits = some (Nat.ofDigitChars 10 digits 0 : Int) := by
  cases digits with
  | nil => exact absurd rfl hne
  | cons d digits =>
    have hd : d ≠ '-' := by
      rintro rfl
      simp at hall
    unfold readInt
    simp [hd, hall]

/-- A user agent reads an age as it was meant. -/
theorem readInt_toString (n : Int) : readInt (toString n).toList = some n := by
  cases n with
  | ofNat m =>
    show readInt (Nat.repr m).toList = _
    rw [toList_repr, readInt_digits Nat.toDigits_ne_nil (isDigit_toDigits m),
      Nat.ofDigitChars_ten_toDigits]
    rfl
  | negSucc m =>
    show readInt ("-" ++ Nat.repr (m + 1)).toList = _
    rw [String.toList_append, toList_repr]
    show readInt ('-' :: Nat.toDigits 10 (m + 1)) = _
    rw [readInt, if_pos (isDigit_toDigits _), Nat.ofDigitChars_ten_toDigits]
    rfl

theorem mem_toString {n : Int} {c : Char} (h : c ∈ (toString n).toList) :
    c = '-' ∨ c.isDigit = true := by
  cases n with
  | ofNat m =>
    change c ∈ (Nat.repr m).toList at h
    rw [toList_repr] at h
    exact .inr (Nat.isDigit_of_mem_toDigits (by decide) (by decide) h)
  | negSucc m =>
    change c ∈ ("-" ++ Nat.repr (m + 1)).toList at h
    rw [String.toList_append, toList_repr] at h
    rcases List.mem_append.mp h with h | h
    · exact .inl (List.mem_singleton.mp h)
    · exact .inr (Nat.isDigit_of_mem_toDigits (by decide) (by decide) h)

theorem maxAge_attribute (n : Int) :
    maxAge (' ' :: ("Max-Age=".toList ++ (toString n).toList)) = some n := by
  have hvisible : ∀ c ∈ (toString n).toList, isBlank c = false := by
    intro c hc
    rcases mem_toString hc with rfl | hdigit
    · decide
    · exact visible_not_blank (Str.isAlphanum_visible (by simp [Char.isAlphanum, hdigit]))
  have hname : nameOf (' ' :: ("Max-Age=".toList ++ (toString n).toList)) = "Max-Age".toList := by
    rfl
  have hvalue : valueOf (' ' :: ("Max-Age=".toList ++ (toString n).toList)) =
      (toString n).toList := by
    show trim (toString n).toList = _
    exact trim_eq_self (tidy_of_forall hvisible)
  rw [maxAge, hname, if_pos (by decide), hvalue, readInt_toString]

theorem isSecure_attribute (n : Int) :
    isSecure (' ' :: ("Max-Age=".toList ++ (toString n).toList)) = false := by
  have hname : nameOf (' ' :: ("Max-Age=".toList ++ (toString n).toList)) = "Max-Age".toList := by
    rfl
  rw [isSecure, hname]
  decide

theorem attributes_free (n : Int) (secure : Bool) :
    ∀ piece ∈ cookieAttributes n secure, ';' ∉ piece := by
  have hage : ';' ∉ "Max-Age=".toList ++ (toString n).toList := by
    intro h
    rcases List.mem_append.mp h with h | h
    · exact absurd h (by decide)
    · rcases mem_toString h with h | h
      · exact absurd h (by decide)
      · exact absurd h (by decide)
  have hothers : ∀ piece ∈ ["Path=/".toList, "HttpOnly".toList, "Secure".toList,
      "SameSite=Lax".toList], ';' ∉ piece := by decide
  intro piece hpiece
  by_cases heq : piece = "Max-Age=".toList ++ (toString n).toList
  · rw [heq]
    exact hage
  · refine hothers piece ?_
    cases secure <;> simp [cookieAttributes] at hpiece heq ⊢ <;> tauto

/-- Of the attributes, one is an age. -/
theorem attributes_age (n : Int) (secure : Bool) :
    ((cookieAttributes n secure).map (' ' :: ·)).filterMap maxAge = [n] := by
  have hpath : maxAge (' ' :: "Path=/".toList) = none := by decide
  have hhttp : maxAge (' ' :: "HttpOnly".toList) = none := by decide
  have hsecure : maxAge (' ' :: "Secure".toList) = none := by decide
  have hsite : maxAge (' ' :: "SameSite=Lax".toList) = none := by decide
  have hage := maxAge_attribute n
  cases secure <;>
    simp only [cookieAttributes, List.cons_append, List.nil_append, Bool.false_eq_true, if_false,
      if_true, List.map_cons, List.map_nil, List.filterMap_cons, List.filterMap_nil, hpath, hhttp,
      hsecure, hsite, hage]

theorem attributes_secure (n : Int) (secure : Bool) :
    ((cookieAttributes n secure).map (' ' :: ·)).any isSecure = secure := by
  have hpath : isSecure (' ' :: "Path=/".toList) = false := by decide
  have hhttp : isSecure (' ' :: "HttpOnly".toList) = false := by decide
  have hsecure : isSecure (' ' :: "Secure".toList) = true := by decide
  have hsite : isSecure (' ' :: "SameSite=Lax".toList) = false := by decide
  have hage := isSecure_attribute n
  cases secure <;>
    simp only [cookieAttributes, List.cons_append, List.nil_append, Bool.false_eq_true, if_false,
      if_true, List.map_cons, List.map_nil, List.any_cons, List.any_nil, hpath, hhttp, hsecure,
      hsite, hage, Bool.or_false, Bool.or_true]

/-- What a user agent makes of a line of the server. -/
theorem parse_line (c : ServerCookie) (secure : Bool) (now : Int) :
    parse now (c.line secure) =
      some { toPair := c.pair, expiry := some (now + c.maxAge), secure := secure } := by
  rw [ServerCookie.line_eq, parse_joined now c.pair (attributes_free _ _), attributes_age,
    attributes_secure]
  rfl

/-! ## What the server reads -/

/-- The `Cookie` header of a browser, under the name that headers have. -/
def cookieHeaders (jar : Jar) (https : Bool) (now : Timestamp) : HeaderMap :=
  match jar.header https now with
  | some text => [("cookie".toList, text)]
  | none => []

/-- The request comes from a browser with this jar. -/
def ShowsJar (headers : HeaderMap) (jar : Jar) (https : Bool) (now : Timestamp) : Prop :=
  (headers.filter fun h => h.1 = "cookie".toList) = cookieHeaders jar https now

theorem showsJar_cookieHeaders (jar : Jar) (https : Bool) (now : Timestamp) :
    ShowsJar (cookieHeaders jar https now) jar https now := by
  unfold ShowsJar cookieHeaders
  cases jar.header https now <;> simp

/-- A cookie that the header can carry to the server. -/
def readableCookie (c : Cookie) : Bool := c.text.all isHeaderChar

theorem trim_piece {s : Str} (hplain : s.all isHeaderChar = true) (htidy : Tidy s) :
    Str.trim (' ' :: s) = s ∧ Str.trim s = s := by
  have hspace : ∀ c ∈ s, isBlank c = false → Str.isWhitespace c = false := by
    intro c hc
    exact isWhitespace_of_header (List.all_eq_true.mp hplain c hc)
  have hlast : s.rdropWhile Str.isWhitespace = s := by
    rw [List.rdropWhile_eq_self_iff]
    intro hne
    have hblank := htidy.last _ (List.getLast?_eq_getLast_of_ne_nil hne)
    simp [hspace _ (List.getLast_mem hne) hblank]
  have hhead : s.dropWhile Str.isWhitespace = s := by
    cases s with
    | nil => rfl
    | cons c s =>
      have hc : Str.isWhitespace c = false := hspace c (by simp) (htidy.head c rfl)
      simp [List.dropWhile, hc]
  have hdrop : (' ' :: s).dropWhile Str.isWhitespace = s.dropWhile Str.isWhitespace := rfl
  unfold Str.trim Str.trimBoth
  rw [hdrop, hhead, hlast]
  exact ⟨rfl, rfl⟩

/-- Name and value are told apart again. -/
theorem splitOnce_text (p : Pair) : Str.splitOnce '=' p.text = some (p.name, p.value) :=
  Str.splitOnce_append p.name_free.2

theorem all_joined (first : List Char) (rest : List (List Char)) :
    (joined first rest).all isHeaderChar = (first :: rest).all fun s => s.all isHeaderChar := by
  have hsemicolon : isHeaderChar ';' = true := by decide
  have hblank : isHeaderChar ' ' = true := by decide
  rw [joined, List.all_append, List.all_cons, List.all_flatMap]
  simp [hsemicolon, hblank]

/-- The pieces of a header become the names and values of the cookies. -/
theorem filterMap_pieces {first : Cookie} {rest : List Cookie}
    (hplain : (first :: rest).all readableCookie = true) :
    (first.text :: rest.map fun c => ' ' :: c.text).filterMap
        (fun piece => Str.splitOnce '=' (Str.trim piece)) =
      (first :: rest).map fun c => (c.name, c.value) := by
  obtain ⟨hfirst, hrest⟩ := List.forall_mem_cons.mp (List.all_eq_true.mp hplain)
  have hread : ∀ c ∈ rest, Str.splitOnce '=' (Str.trim (' ' :: c.text)) =
      some (c.name, c.value) := by
    intro c hc
    rw [(trim_piece (hrest c hc) c.text_tidy).1, splitOnce_text]
  have htail : (rest.map fun c => ' ' :: c.text).filterMap
      (fun piece => Str.splitOnce '=' (Str.trim piece)) =
        rest.map fun c => (c.name, c.value) := by
    rw [List.filterMap_map, ← List.filterMap_eq_map]
    exact List.filterMap_congr fun c hc => hread c hc
  rw [List.filterMap_cons, (trim_piece hfirst first.text_tidy).2, splitOnce_text, htail]
  rfl

/-- **What `cookie_value` finds.** A cookie that a header cannot carry as text
    hides all the others. -/
theorem cookieValue_shows {headers : HeaderMap} {jar : Jar} {https : Bool} {now : Timestamp}
    (h : ShowsJar headers jar https now) (name : Str) :
    cookieValue headers name =
      if (jar.live https now).all readableCookie then
        ((jar.get name).filter (Cookie.isLive https now)).bind fun c => QueryString.decode c.value
      else none := by
  rw [← jar.findSome_live https now name fun c => QueryString.decode c.value]
  unfold cookieValue
  rw [h, cookieHeaders]
  unfold Jar.header
  cases hlive : jar.live https now with
  | nil => rfl
  | cons first rest =>
    have hfree : ∀ piece ∈ rest.map fun c => c.text, ';' ∉ piece := by
      intro piece hpiece
      obtain ⟨c, -, rfl⟩ := List.mem_map.mp hpiece
      exact c.text_free
    have hall : (joined first.text (rest.map fun c => c.text)).all isHeaderChar =
        (first :: rest).all readableCookie := by
      rw [all_joined, List.all_cons, List.all_map]
      rfl
    simp only [List.filterMap_cons, List.filterMap_nil, HeaderValue.toStr_eq, hall]
    by_cases hplain : (first :: rest).all readableCookie = true
    · rw [if_pos hplain, if_pos hplain]
      simp only [List.flatMap_cons, List.flatMap_nil, List.append_nil,
        splitOn_joined first.text_free hfree, List.map_map]
      have hpieces := filterMap_pieces hplain
      simp only [Function.comp_def]
      rw [hpieces, List.findSome?_map]
      rfl
    · rw [if_neg hplain, if_neg hplain]
      rfl

/-! ## Browsing -/

/-- A line that a browser receives: from this server, or from another
    application on the host. -/
inductive ReceivedCookie
  | server (c : ServerCookie)
  | other (line : Str)

def ReceivedCookie.line (secure : Bool) : ReceivedCookie → Str
  | server c => c.line secure
  | other line => line

/-- The name that another application sets. -/
def ReceivedCookie.otherName : ReceivedCookie → Option Str
  | server _ => none
  | other line => lineName line

/-- The jar after lines at their times. -/
def browse (https secure : Bool) (received : List (Timestamp × ReceivedCookie)) : Jar :=
  received.foldl (fun jar r => jar.store https r.1 (r.2.line secure)) Jar.empty

/-- Whether a line is the one of the server's cookie with this name. -/
def ReceivedCookie.sets (name : Str) : ReceivedCookie → Option ServerCookie
  | server c => if c.name = name then some c else none
  | other _ => none

/-- The last cookie that the server has set under a name, and when it
    arrived. -/
def lastCookie (name : Str) (received : List (Timestamp × ReceivedCookie)) :
    Option (Timestamp × ServerCookie) :=
  received.foldl (fun last r => ((r.2.sets name).map fun c => (r.1, c)).or last) none

/-- The cookie that the browser keeps. -/
def ServerCookie.kept (secure : Bool) (arrived : Timestamp × ServerCookie) : Cookie where
  toPair := arrived.2.pair
  expiry := some (arrived.1 + arrived.2.maxAge)
  secure := secure

/-- One line that arrives. -/
theorem get_store_received {https secure : Bool} (hsecure : secure = true → https = true)
    {name : Str} (r : Timestamp × ReceivedCookie)
    (hother : r.2.otherName ≠ some name) (jar : Jar) :
    (jar.store https r.1 (r.2.line secure)).get name =
      (((r.2.sets name).map fun c => (r.1, c)).map (ServerCookie.kept secure)).or
        (jar.get name) := by
  obtain ⟨t, received⟩ := r
  cases received with
  | other line => exact jar.get_store_other hother https t
  | server c =>
    show (jar.store https t (c.line secure)).get name = _
    rw [jar.get_store (parse_line c secure t) hsecure]
    -- a line of the server replaces the cookie of its own name only
    by_cases hname : c.name = name
    · have hset : (ReceivedCookie.server c).sets name = some c := if_pos hname
      rw [hset]
      exact if_pos hname
    · have hset : (ReceivedCookie.server c).sets name = none := if_neg hname
      rw [hset]
      exact if_neg hname

/-- The jar holds what was set last. -/
theorem get_browse {https secure : Bool} (hsecure : secure = true → https = true) {name : Str}
    {received : List (Timestamp × ReceivedCookie)}
    (hother : ∀ r ∈ received, r.2.otherName ≠ some name) :
    (browse https secure received).get name =
      (lastCookie name received).map (ServerCookie.kept secure) := by
  induction received using List.reverseRecOn with
  | nil => rfl
  | append_singleton received r ih =>
    have hpre := ih fun r' hr' => hother r' (List.mem_append_left _ hr')
    have hlast := get_store_received hsecure r (hother r (by simp)) (browse https secure received)
    have hjar : browse https secure (received ++ [r]) =
        (browse https secure received).store https r.1 (r.2.line secure) := List.foldl_concat _ _ _ _
    have hcookie : lastCookie name (received ++ [r]) =
        ((r.2.sets name).map fun c => (r.1, c)).or (lastCookie name received) :=
      List.foldl_concat _ _ _ _
    rw [hjar, hlast, hpre, hcookie]
    cases r.2.sets name <;> rfl

/-- Whether a cookie that has arrived is not too old to be shown. -/
def ServerCookie.isFresh (now : Timestamp) (arrived : Timestamp × ServerCookie) : Bool :=
  now < arrived.1 + arrived.2.maxAge

/-- What is read of a cookie that is kept. -/
theorem read_kept {https secure : Bool} (hsecure : secure = true → https = true)
    (now : Timestamp) (last : Option (Timestamp × ServerCookie)) :
    ((last.map (ServerCookie.kept secure)).filter (Cookie.isLive https now)).bind
        (fun c => QueryString.decode c.value) =
      (last.filter (ServerCookie.isFresh now)).map fun arrived => arrived.2.value := by
  cases last with
  | none => rfl
  | some arrived =>
    -- a cookie that is secure has come over https, and goes back over it
    have hsent : (!secure || https) = true := by
      cases hs : secure with
      | false => rfl
      | true => simp [hsecure hs]
    have hlive : (ServerCookie.kept secure arrived).isLive https now =
        ServerCookie.isFresh now arrived := by
      show (decide (now < arrived.1 + arrived.2.maxAge) && (!secure || https)) = _
      rw [hsent, Bool.and_true]
      rfl
    rw [Option.map_some]
    cases hfresh : ServerCookie.isFresh now arrived with
    | true =>
      rw [hfresh] at hlive
      rw [Option.filter_some_pos hlive, Option.filter_some_pos hfresh]
      exact QueryString.decode_encode arrived.2.value
    | false =>
      rw [hfresh] at hlive
      rw [Option.filter_some_neg hlive, Option.filter_some_neg hfresh]
      rfl

/-- **Cookies come back.** Whatever lines a browser has received, from this
    server and from other applications under other names, the server reads
    under a name the value that it has set there last, as long as that one's
    age allows. The one exception is a jar with a cookie that is no text of a
    header: then the server reads nothing. -/
theorem cookies_come_back (cfg : Config) (https : Bool)
    (hsecure : cfg.cookiesSecure = true → https = true)
    (received : List (Timestamp × ReceivedCookie)) (name : Str)
    (hother : ∀ r ∈ received, r.2.otherName ≠ some name)
    {headers : HeaderMap} {now : Timestamp}
    (hshows : ShowsJar headers (browse https cfg.cookiesSecure received) https now) :
    cookieValue headers name =
      if ((browse https cfg.cookiesSecure received).live https now).all readableCookie then
        ((lastCookie name received).filter (ServerCookie.isFresh now)).map fun arrived =>
          arrived.2.value
      else none := by
  rw [cookieValue_shows hshows, get_browse hsecure hother, read_kept hsecure]

end SoulAuth

namespace SoulAuth.Sample

/-- A server behind `https`. -/
def secureConfig : Config := { bareConfig with appUrl := "https://auth.example".toList }

/-- A value with the letters that separate cookies. -/
def oddCookie : ServerCookie where
  name := soulauthSessionCookie
  value := "a;b =c".toList
  maxAge := 60
  name_ne := by decide
  name_plain := Str.forall_mem_of_all (by decide)

/-- The same name, set before. -/
def olderCookie : ServerCookie where
  name := soulauthSessionCookie
  value := "old".toList
  maxAge := 3600
  name_ne := by decide
  name_plain := Str.forall_mem_of_all (by decide)

def receivedCookies : List (Timestamp × ReceivedCookie) :=
  [(0, .server olderCookie), (5, .other "theme=dark; Path=/".toList), (10, .server oddCookie)]

theorem cookies_come_back_odd :
    cookieValue (cookieHeaders (browse true secureConfig.cookiesSecure receivedCookies) true 69)
      soulauthSessionCookie = some "a;b =c".toList := by
  rw [cookies_come_back secureConfig true (fun _ => rfl) receivedCookies soulauthSessionCookie
    (by decide) (showsJar_cookieHeaders _ _ _)]
  decide

end SoulAuth.Sample
