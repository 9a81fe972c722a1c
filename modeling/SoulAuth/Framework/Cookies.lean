import Mathlib.Data.List.DropRight
import Mathlib.Data.List.TakeWhile
import Mathlib.Data.List.Nodup

/-! # Cookies

The jar in which a user agent keeps the cookies of one host, all of them for
every path. A server sets a cookie with a line of text; the user agent takes
the line apart and shows name and value to the server again, with the rest of
its jar, for as long as the cookie lives.
-/

namespace SoulAuth.Framework.Cookies

/-! ## Blanks -/

/-- What a user agent removes around a name or a value. -/
def isBlank (c : Char) : Bool := c = ' ' || c = '\t'

def trim (s : List Char) : List Char := (s.dropWhile isBlank).rdropWhile isBlank

/-- Neither end is a blank. -/
structure Tidy (s : List Char) : Prop where
  head : ∀ c ∈ s.head?, isBlank c = false
  last : ∀ c ∈ s.getLast?, isBlank c = false

theorem mem_of_mem_trim {s : List Char} {c : Char} (h : c ∈ trim s) : c ∈ s := by
  have hfirst : trim s <+: s.dropWhile isBlank := List.rdropWhile_prefix isBlank _
  exact (List.dropWhile_sublist isBlank).subset (hfirst.subset h)

theorem trim_eq_self {s : List Char} (h : Tidy s) : trim s = s := by
  have hhead : s.dropWhile isBlank = s := by
    cases s with
    | nil => rfl
    | cons c s => simp [List.dropWhile, h.head c rfl]
  rw [trim, hhead, List.rdropWhile_eq_self_iff]
  intro hne
  simp [h.last _ (List.getLast?_eq_getLast_of_ne_nil hne)]

theorem tidy_trim (s : List Char) : Tidy (trim s) := by
  constructor
  · intro c hc
    -- what begins a prefix begins the text
    obtain ⟨t, ht⟩ : trim s <+: s.dropWhile isBlank := List.rdropWhile_prefix isBlank _
    have hhead : (s.dropWhile isBlank).head? = some c := by
      rw [← ht, List.head?_append, Option.mem_def.mp hc]
      rfl
    have hnot := List.head?_dropWhile_not isBlank s
    rw [hhead] at hnot
    simpa using hnot
  · intro c hc
    have hne : trim s ≠ [] := by
      intro hnil
      rw [hnil] at hc
      cases hc
    have hlast := List.rdropWhile_last_not isBlank (s.dropWhile isBlank) hne
    have hsome : (trim s).getLast? = some ((trim s).getLast hne) :=
      List.getLast?_eq_getLast_of_ne_nil hne
    rw [Option.mem_def, hsome] at hc
    rw [← Option.some.inj hc]
    exact Bool.eq_false_iff.mpr hlast

theorem tidy_of_forall {s : List Char} (h : ∀ c ∈ s, isBlank c = false) : Tidy s where
  head c hc := h c (List.mem_of_mem_head? hc)
  last c hc := h c (List.mem_of_getLast? hc)

/-! ## Pieces between semicolons -/

/-- Pieces with a semicolon and a blank between them. -/
def joined (first : List Char) (rest : List (List Char)) : List Char :=
  first ++ rest.flatMap fun piece => ';' :: ' ' :: piece

/-- The pieces are what lies between the semicolons, behind a blank. -/
theorem splitOn_joined {first : List Char} {rest : List (List Char)} (hfirst : ';' ∉ first)
    (hrest : ∀ piece ∈ rest, ';' ∉ piece) :
    (joined first rest).splitOn ';' = first :: rest.map (' ' :: ·) := by
  induction rest generalizing first with
  | nil =>
    rw [joined, List.flatMap_nil, List.append_nil]
    exact List.splitOn_eq_singleton hfirst
  | cons piece rest ih =>
    obtain ⟨hpiece, hrest'⟩ := List.forall_mem_cons.mp hrest
    have hblank : ';' ∉ ' ' :: piece := by
      intro h
      rcases List.mem_cons.mp h with h | h
      · cases h
      · exact hpiece h
    have hcut : joined first (piece :: rest) = first ++ ';' :: joined (' ' :: piece) rest := by
      simp [joined]
    rw [hcut, List.splitOn_append_cons_self_of_not_mem hfirst, ih hblank hrest']
    rfl

/-! ## Names and values -/

/-- Name and value of a cookie, as they are written. -/
structure Pair where
  name : List Char
  value : List Char
  name_ne : name ≠ []
  name_tidy : Tidy name
  value_tidy : Tidy value
  name_free : ';' ∉ name ∧ '=' ∉ name
  value_free : ';' ∉ value
  deriving DecidableEq

/-- A pair as it is shown to the server. -/
def Pair.text (p : Pair) : List Char := p.name ++ '=' :: p.value

/-- What stands before the first equals sign, and behind it. -/
def nameOf (piece : List Char) : List Char := trim (piece.takeWhile (· ≠ '='))

def valueOf (piece : List Char) : List Char := trim ((piece.dropWhile (· ≠ '=')).drop 1)

theorem nameOf_free {piece : List Char} (h : ';' ∉ piece) :
    ';' ∉ nameOf piece ∧ '=' ∉ nameOf piece := by
  constructor
  · intro hmem
    exact h ((List.takeWhile_sublist _).subset (mem_of_mem_trim hmem))
  · intro hmem
    have hne := List.mem_takeWhile_imp (mem_of_mem_trim hmem)
    simp at hne

theorem valueOf_free {piece : List Char} (h : ';' ∉ piece) : ';' ∉ valueOf piece := by
  intro hmem
  exact h ((List.dropWhile_sublist _).subset ((List.drop_sublist _ _).subset (mem_of_mem_trim hmem)))

/-- The pair of a piece of text. Without an equals sign or without a name
    there is none. -/
def Pair.read (piece : List Char) (hfree : ';' ∉ piece) : Option Pair :=
  if h : '=' ∈ piece ∧ nameOf piece ≠ [] then
    some ⟨nameOf piece, valueOf piece, h.2, tidy_trim _, tidy_trim _, nameOf_free hfree,
      valueOf_free hfree⟩
  else none

theorem Pair.text_free (p : Pair) : ';' ∉ p.text := by
  intro h
  rcases List.mem_append.mp h with h | h
  · exact p.name_free.1 h
  · rcases List.mem_cons.mp h with h | h
    · cases h
    · exact p.value_free h

theorem Pair.text_tidy (p : Pair) : Tidy p.text := by
  constructor
  · intro c hc
    rw [Pair.text, List.head?_append_of_ne_nil _ p.name_ne] at hc
    exact p.name_tidy.head c hc
  · intro c hc
    rw [Pair.text, List.getLast?_append, List.getLast?_cons] at hc
    cases hlast : p.value.getLast? with
    | none =>
      rw [hlast] at hc
      cases hc
      rfl
    | some d =>
      rw [hlast] at hc
      cases hc
      exact p.value_tidy.last _ hlast

theorem nameOf_text (p : Pair) : nameOf p.text = p.name := by
  have hname : ∀ c ∈ p.name, decide (c ≠ '=') = true := by
    intro c hc
    rw [decide_eq_true_eq]
    rintro rfl
    exact p.name_free.2 hc
  rw [nameOf, Pair.text, List.takeWhile_append_of_pos hname]
  simpa using trim_eq_self p.name_tidy

theorem valueOf_text (p : Pair) : valueOf p.text = p.value := by
  have hname : ∀ c ∈ p.name, decide (c ≠ '=') = true := by
    intro c hc
    rw [decide_eq_true_eq]
    rintro rfl
    exact p.name_free.2 hc
  rw [valueOf, Pair.text, List.dropWhile_append_of_pos hname]
  simpa using trim_eq_self p.value_tidy

theorem Pair.read_text (p : Pair) : Pair.read p.text p.text_free = some p := by
  have hok : '=' ∈ p.text ∧ nameOf p.text ≠ [] := by
    refine ⟨by simp [Pair.text], ?_⟩
    rw [nameOf_text]
    exact p.name_ne
  rw [Pair.read, dif_pos hok]
  simp only [nameOf_text, valueOf_text]

/-! ## The lines that set a cookie -/

/-- A cookie, the time from which on it is dropped, and whether it is for
    secure connections only. -/
structure Cookie extends Pair where
  expiry : Option Int
  secure : Bool
  deriving DecidableEq

/-- Decimal digits, after a minus sign or not. -/
def readInt : List Char → Option Int
  | '-' :: digits =>
    if digits.all Char.isDigit then some (-(Nat.ofDigitChars 10 digits 0 : Int)) else none
  | [] => none
  | digits => if digits.all Char.isDigit then some (Nat.ofDigitChars 10 digits 0 : Int) else none

/-- The seconds of a `Max-Age` attribute. -/
def maxAge (item : List Char) : Option Int :=
  if (nameOf item).map Char.toLower = "max-age".toList then readInt (valueOf item) else none

def isSecure (item : List Char) : Bool := (nameOf item).map Char.toLower = "secure".toList

/-- The pair of a line ends at the first semicolon. -/
def pairText (line : List Char) : List Char := line.takeWhile (· ≠ ';')

theorem pairText_free (line : List Char) : ';' ∉ pairText line := by
  intro h
  have hne := List.mem_takeWhile_imp h
  simp at hne

/-- What stands behind the pair. -/
def attributes (line : List Char) : List (List Char) := (line.splitOn ';').drop 1

/-- The cookie of a line that arrives at a time. The last of several ages
    counts. -/
def parse (now : Int) (line : List Char) : Option Cookie :=
  (Pair.read (pairText line) (pairText_free line)).map fun pair =>
    { toPair := pair
      expiry := ((attributes line).filterMap maxAge).getLast?.map (now + ·)
      secure := (attributes line).any isSecure }

theorem pairText_joined {first : List Char} (rest : List (List Char)) (hfirst : ';' ∉ first) :
    pairText (joined first rest) = first := by
  have hfree : ∀ c ∈ first, decide (c ≠ ';') = true := by
    intro c hc
    rw [decide_eq_true_eq]
    rintro rfl
    exact hfirst hc
  rw [pairText, joined, List.takeWhile_append_of_pos hfree]
  cases rest <;> simp

theorem Pair.read_congr {piece piece' : List Char} (h : piece = piece') (hfree : ';' ∉ piece) :
    Pair.read piece hfree = Pair.read piece' (h ▸ hfree) := by
  subst h
  rfl

/-- What a user agent makes of a line with a pair and attributes. -/
theorem parse_joined (now : Int) (p : Pair) {rest : List (List Char)}
    (hrest : ∀ piece ∈ rest, ';' ∉ piece) :
    parse now (joined p.text rest) = some
      { toPair := p
        expiry := ((rest.map (' ' :: ·)).filterMap maxAge).getLast?.map (now + ·)
        secure := (rest.map (' ' :: ·)).any isSecure } := by
  have hattributes : attributes (joined p.text rest) = rest.map (' ' :: ·) := by
    rw [attributes, splitOn_joined p.text_free hrest]
    rfl
  rw [parse, hattributes, Pair.read_congr (pairText_joined rest p.text_free), Pair.read_text]
  rfl

/-! ## The jar -/

/-- The cookies that a user agent keeps for a host, one for each name. -/
structure Jar where
  cookies : List Cookie
  distinct : (cookies.map fun c => c.name).Nodup
  deriving DecidableEq

def Jar.empty : Jar where
  cookies := []
  distinct := List.nodup_nil

def Cookie.isNamed (name : List Char) (cookie : Cookie) : Bool := cookie.name = name

theorem nodup_put {cookies : List Cookie} (h : (cookies.map fun c => c.name).Nodup)
    (cookie : Cookie) :
    (((cookies.filter fun c => !c.isNamed cookie.name) ++ [cookie]).map fun c => c.name).Nodup := by
  rw [List.map_append]
  refine List.Nodup.append ?_ (List.nodup_singleton _) ?_
  · exact h.sublist ((List.filter_sublist).map _)
  · intro name hname hname'
    obtain ⟨c, hc, rfl⟩ := List.mem_map.mp hname
    have hne := (List.mem_filter.mp hc).2
    simp only [List.map_cons, List.map_nil, List.mem_singleton] at hname'
    simp [Cookie.isNamed, hname'] at hne

/-- A cookie takes the place of the one with its name. -/
def Jar.put (jar : Jar) (cookie : Cookie) : Jar where
  cookies := (jar.cookies.filter fun c => !c.isNamed cookie.name) ++ [cookie]
  distinct := nodup_put jar.distinct cookie

/-- A line arrives. Cookies for secure connections only are not taken over
    another one. -/
def Jar.store (jar : Jar) (https : Bool) (now : Int) (line : List Char) : Jar :=
  match parse now line with
  | some cookie => if cookie.secure && !https then jar else jar.put cookie
  | none => jar

/-- The cookie of a name. -/
def Jar.get (jar : Jar) (name : List Char) : Option Cookie :=
  jar.cookies.find? (Cookie.isNamed name)

/-- Whether a cookie is shown: from its expiry on it is not. -/
def Cookie.isLive (https : Bool) (now : Int) (cookie : Cookie) : Bool :=
  cookie.expiry.all (now < ·) && (!cookie.secure || https)

/-- The cookies that a request shows. -/
def Jar.live (jar : Jar) (https : Bool) (now : Int) : List Cookie :=
  jar.cookies.filter (Cookie.isLive https now)

/-- The `Cookie` header of a request, if the jar has anything to show. -/
def Jar.header (jar : Jar) (https : Bool) (now : Int) : Option (List Char) :=
  match jar.live https now with
  | [] => none
  | first :: rest => some (joined first.text (rest.map fun c => c.text))

@[simp] theorem Jar.get_empty (name : List Char) : Jar.empty.get name = none := rfl

theorem Jar.get_put (jar : Jar) (cookie : Cookie) (name : List Char) :
    (jar.put cookie).get name = if cookie.name = name then some cookie else jar.get name := by
  show ((jar.cookies.filter fun c => !c.isNamed cookie.name) ++ [cookie]).find? _ = _
  rw [List.find?_append, List.find?_filter]
  by_cases hname : cookie.name = name
  · -- every other cookie of the name is gone
    have hnone : (jar.cookies.find? fun c =>
        decide ((!c.isNamed cookie.name) = true ∧ c.isNamed name = true)) = none := by
      rw [List.find?_eq_none]
      intro c _
      simp [hname]
    have hself : cookie.isNamed name = true := decide_eq_true hname
    rw [hnone, if_pos hname, Option.none_or, List.find?_cons_of_pos hself]
  · have hsame : (fun c : Cookie =>
        decide ((!c.isNamed cookie.name) = true ∧ c.isNamed name = true)) =
        Cookie.isNamed name := by
      funext c
      unfold Cookie.isNamed
      by_cases hc : c.name = name
      · have hne : name ≠ cookie.name := fun h => hname h.symm
        simp [hc, hne]
      · simp [hc]
    have hother : ¬ cookie.isNamed name = true := by
      simpa [Cookie.isNamed] using hname
    rw [hsame, if_neg hname, List.find?_cons_of_neg hother, List.find?_nil, Option.or_none]
    rfl

/-- A cookie that is taken over is the one of its name, and no other
    changes. -/
theorem Jar.get_store {line : List Char} {now : Int} {cookie : Cookie}
    (hparse : parse now line = some cookie) (jar : Jar) {https : Bool}
    (hsecure : cookie.secure = true → https = true) (name : List Char) :
    (jar.store https now line).get name =
      if cookie.name = name then some cookie else jar.get name := by
  have htaken : (cookie.secure && !https) = false := by
    cases hs : cookie.secure with
    | false => rfl
    | true => simp [hsecure hs]
  rw [Jar.store, hparse]
  simp only [htaken, Bool.false_eq_true, if_false]
  exact jar.get_put cookie name

/-- The name that a line is about. -/
def lineName (line : List Char) : Option (List Char) :=
  (Pair.read (pairText line) (pairText_free line)).map fun p => p.name

theorem Jar.get_store_other {line name : List Char} (hname : lineName line ≠ some name)
    (jar : Jar) (https : Bool) (now : Int) :
    (jar.store https now line).get name = jar.get name := by
  unfold Jar.store
  cases hparse : parse now line with
  | none => rfl
  | some cookie =>
    have hcookie : lineName line = some cookie.name := by
      unfold parse at hparse
      obtain ⟨pair, hpair, rfl⟩ := Option.map_eq_some_iff.mp hparse
      rw [lineName, hpair]
      rfl
    have hne : cookie.name ≠ name := by
      rintro rfl
      exact hname hcookie
    show (if (cookie.secure && !https) = true then jar else jar.put cookie).get name = _
    split
    · rfl
    · rw [jar.get_put, if_neg hne]

/-- No two cookies of a jar have one name, so that a search for it looks at
    the one that has it. -/
theorem Jar.findSome_live {α : Type} (jar : Jar) (https : Bool) (now : Int) (name : List Char)
    (f : Cookie → Option α) :
    ((jar.live https now).findSome? fun c => if c.name = name then f c else none) =
      ((jar.get name).filter (Cookie.isLive https now)).bind f := by
  unfold Jar.live Jar.get
  have hdistinct := jar.distinct
  generalize jar.cookies = cookies at hdistinct ⊢
  induction cookies with
  | nil => rfl
  | cons c cookies ih =>
    obtain ⟨hfresh, hdistinct'⟩ := List.nodup_cons.mp hdistinct
    have hrest := ih hdistinct'
    by_cases hname : c.name = name
    · have hnamed : c.isNamed name = true := decide_eq_true hname
      have hnone : cookies.find? (Cookie.isNamed name) = none := by
        rw [List.find?_eq_none]
        intro d hd hdname
        exact hfresh (List.mem_map.mpr ⟨d, hd, (of_decide_eq_true hdname).trans hname.symm⟩)
      rw [hnone] at hrest
      rw [List.find?_cons_of_pos hnamed]
      by_cases hlive : c.isLive https now = true
      · rw [List.filter_cons_of_pos hlive, List.findSome?_cons, if_pos hname, hrest,
          Option.filter_some_pos hlive]
        cases hf : f c <;> simp [hf]
      · rw [List.filter_cons_of_neg hlive, hrest,
          Option.filter_some_neg (by simpa using hlive)]
        rfl
    · have hother : ¬ c.isNamed name = true := by
        simpa [Cookie.isNamed] using hname
      rw [List.find?_cons_of_neg hother, ← hrest]
      by_cases hlive : c.isLive https now = true
      · rw [List.filter_cons_of_pos hlive, List.findSome?_cons, if_neg hname]
      · rw [List.filter_cons_of_neg hlive]

end SoulAuth.Framework.Cookies
