import AutoDeploy.Lib.Netip
import Mathlib.Data.List.TakeWhile

namespace AutoDeploy.Lib

-- Request targets as the standard library reads and writes them.
namespace Url

def percent : UInt8 := 0x25

def slash : UInt8 := 0x2f

def colon : UInt8 := 0x3a

def question : UInt8 := 0x3f

def asterisk : UInt8 := 0x2a

def atSign : UInt8 := 0x40

def openBracket : UInt8 := 0x5b

def closeBracket : UInt8 := 0x5d

def isLetter (b : UInt8) : Bool := (decide (0x41 ≤ b) && decide (b ≤ 0x5a)) || (decide (0x61 ≤ b) && decide (b ≤ 0x7a))

def isDigit (b : UInt8) : Bool := decide (0x30 ≤ b) && decide (b ≤ 0x39)

-- The characters `-_.~`.
def marks : Bytes := [0x2d, 0x5f, 0x2e, 0x7e]

-- The characters `$&+,/:;=?@`.
def reserved : Bytes := [0x24, 0x26, 0x2b, 0x2c, 0x2f, 0x3a, 0x3b, 0x3d, 0x3f, 0x40]

-- The characters `!$&'()*+,;=:@` and brackets and the percent sign.
def encodable : Bytes :=
  [0x21, 0x24, 0x26, 0x27, 0x28, 0x29, 0x2a, 0x2b, 0x2c, 0x3b, 0x3d, 0x3a, 0x40, 0x5b, 0x5d, 0x25]

-- Whether a byte of a path is to be escaped.
def shouldEscape (b : UInt8) : Bool :=
  if isLetter b = true ∨ isDigit b = true then false
  else if b ∈ marks then false
  else if b ∈ reserved then b == question
  else true

def unhex (b : UInt8) : Option Nat := Bytes.hexValue (Char.ofNat b.toNat)

def upperhex (n : Nat) : UInt8 := if n < 10 then UInt8.ofNat (0x30 + n) else UInt8.ofNat (0x37 + n)

def unescape : Bytes → Option Bytes
  | [] => some []
  | [b] => if b = percent then none else some [b]
  | [b, c] => if b = percent ∨ c = percent then none else some [b, c]
  | b :: c :: d :: rest =>
      if b = percent then do
        let high ← unhex c
        let low ← unhex d
        let path ← unescape rest
        pure (UInt8.ofNat (16 * high + low) :: path)
      else do
        let path ← unescape (c :: d :: rest)
        pure (b :: path)

def escapeByte (b : UInt8) : Bytes :=
  if shouldEscape b = true then [percent, upperhex (b.toNat / 16), upperhex (b.toNat % 16)] else [b]

def escape (path : Bytes) : Bytes := path.flatMap escapeByte

def validEncoded (s : Bytes) : Bool := s.all fun b => encodable.contains b || !shouldEscape b

-- The characters `!$&'()*+,;=:[]<>"`, which a host may have too.
def hostMarks : Bytes :=
  [0x21, 0x24, 0x26, 0x27, 0x28, 0x29, 0x2a, 0x2b, 0x2c, 0x3b, 0x3d, 0x3a, 0x5b, 0x5d, 0x3c, 0x3e, 0x22]

def shouldEscapeHost (b : UInt8) : Bool := !(isLetter b || isDigit b || hostMarks.contains b || marks.contains b)

-- A byte of a host that stands for itself.
def hostByte (b : UInt8) : Bool := decide (0x80 ≤ b) || !shouldEscapeHost b

-- A host has escapes of bytes outside ASCII and of the percent sign. A zone has others too, but none that hides
-- what a host may not have.
def hostEscape (zone : Bool) (high low : Nat) : Bool :=
  let b := UInt8.ofNat (16 * high + low)
  b == percent || if zone then b == 0x20 || !shouldEscapeHost b else decide (8 ≤ high)

def unescapeHost (zone : Bool) : Bytes → Option Bytes
  | [] => some []
  | [b] => if hostByte b = true then some [b] else none
  | [b, c] => if hostByte b = true ∧ hostByte c = true then some [b, c] else none
  | b :: c :: d :: rest =>
      if b = percent then do
        let high ← unhex c
        let low ← unhex d
        let host ← unescapeHost zone rest
        if hostEscape zone high low = true then some (UInt8.ofNat (16 * high + low) :: host) else none
      else do
        let host ← unescapeHost zone (c :: d :: rest)
        if hostByte b = true then some (b :: host) else none

def validOptionalPort : Bytes → Bool
  | [] => true
  | b :: rest => b == colon && rest.all isDigit

-- What follows the last separator: everything, where there is none.
def afterLast (sep : UInt8) (s : Bytes) : Bytes := (s.reverse.takeWhile (· != sep)).reverse

-- What stands before the last separator.
def beforeLast (sep : UInt8) (s : Bytes) : Bytes := s.take (s.length - (afterLast sep s).length - 1)

-- Web addresses have one colon at most, others their port after the last one.
def colonPort (scheme host : Bytes) : Bytes :=
  if scheme = Bytes.ofString "http" ∨ scheme = Bytes.ofString "https" then host.dropWhile (· != colon)
  else if colon ∈ host then colon :: afterLast colon host
  else []

def zoneIndex (s : Bytes) : Option Nat := (List.range s.length).find? fun i => [percent, 0x32, 0x35].isPrefixOf (s.drop i)

-- The address inside brackets, which is of version 6, and its zone.
def unescapeLiteral (name : Bytes) : Option Bytes :=
  match zoneIndex name with
  | none => unescapeHost false name
  | some i => do
      let host ← unescapeHost false (name.take i)
      let zone ← unescapeHost true (name.drop i)
      pure (host ++ zone)

def parseLiteral (s : Bytes) : Option Bytes :=
  if closeBracket ∈ s ∧ validOptionalPort (afterLast closeBracket s) = true then do
    let port ← unescapeHost false (afterLast closeBracket s)
    let name ← unescapeLiteral (beforeLast closeBracket s)
    match Addr.parseAddr name with
    | some (.v6 _ _) => some (openBracket :: name ++ closeBracket :: port)
    | _ => none
  else none

def parseHost (scheme host : Bytes) : Option Bytes :=
  if openBracket ∈ host.tail then none
  else if host.head? = some openBracket then parseLiteral host.tail
  else if validOptionalPort (colonPort scheme host) = true then unescapeHost false host
  else none

-- The characters `-._:~!$&'()*+,;=%@` besides letters and digits.
def validUserinfo (s : Bytes) : Bool :=
  let allowed : Bytes :=
    [0x2d, 0x2e, 0x5f, 0x3a, 0x7e, 0x21, 0x24, 0x26, 0x27, 0x28, 0x29, 0x2a, 0x2b, 0x2c, 0x3b, 0x3d, 0x25, 0x40]
  s.all fun b => isLetter b || isDigit b || allowed.contains b

structure Userinfo where
  username : Bytes
  password : Option Bytes
deriving DecidableEq, Repr

def parseUserinfo (s : Bytes) : Option Userinfo :=
  if validUserinfo s = false then none
  else if colon ∉ s then do
    let username ← unescape s
    pure ⟨username, none⟩
  else do
    let username ← unescape (s.takeWhile (· != colon))
    let password ← unescape (s.dropWhile (· != colon)).tail
    pure ⟨username, some password⟩

-- The user, if there is one, and the host.
def parseAuthority (scheme authority : Bytes) : Option (Option Userinfo × Bytes) := do
  let host ← parseHost scheme (afterLast atSign authority)
  if atSign ∉ authority then pure (none, host)
  else do
    let user ← parseUserinfo (beforeLast atSign authority)
    pure (some user, host)

structure URL where
  scheme : Bytes
  rootless : Bytes
  user : Option Userinfo
  host : Bytes
  path : Bytes
  rawPath : Bytes
  omitHost : Bool
  forceQuery : Bool
  rawQuery : Bytes
deriving DecidableEq, Repr

def getSchemeAux (raw : Bytes) : Nat → Bytes → Option (Bytes × Bytes)
  | _, [] => some ([], raw)
  | i, b :: rest =>
      if isLetter b = true then getSchemeAux raw (i + 1) rest
      else if isDigit b = true ∨ b ∈ ([0x2b, 0x2d, 0x2e] : Bytes) then
        if i = 0 then some ([], raw) else getSchemeAux raw (i + 1) rest
      else if b = colon then
        if i = 0 then none else some (raw.take i, rest)
      else some ([], raw)

-- The scheme, if there is one, and what follows it; a colon in front is an error.
def getScheme (raw : Bytes) : Option (Bytes × Bytes) := getSchemeAux raw 0 raw

def lower (b : UInt8) : UInt8 := if 0x41 ≤ b ∧ b ≤ 0x5a then b + 0x20 else b

-- The path and the query; a single question mark at the end is a query that is empty but there.
def cutQuery (rest : Bytes) : Bytes × Bool × Bytes :=
  if rest.getLast? = some question ∧ rest.count question = 1 then (rest.dropLast, true, [])
  else (rest.takeWhile (· != question), false, (rest.dropWhile (· != question)).tail)

-- The default escaping is not recorded.
def URL.setPath (u : URL) (p : Bytes) : Option URL := do
  let path ← unescape p
  pure { u with path := path, rawPath := if p = escape path then [] else p }

-- A request target: a path, or an address with a scheme.
def parseRequestURI (raw : Bytes) : Option URL :=
  if raw.any (fun b => decide (b < 0x20) || b == 0x7f) = true ∨ raw = [] then none
  else if raw = [asterisk] then some ⟨[], [], none, [], [asterisk], [], false, false, []⟩
  else do
    let (scheme, rest) ← getScheme raw
    let (rest, forceQuery, rawQuery) := cutQuery rest
    let u : URL := ⟨scheme.map lower, [], none, [], [], [], false, forceQuery, rawQuery⟩
    if rest.head? ≠ some slash then
      if scheme = [] then none else some { u with rootless := rest }
    else if scheme ≠ [] ∧ [slash, slash] <+: rest then do
      let (user, host) ← parseAuthority u.scheme ((rest.drop 2).takeWhile (· != slash))
      URL.setPath { u with user := user, host := host } ((rest.drop 2).dropWhile (· != slash))
    else URL.setPath { u with omitHost := decide (scheme ≠ []) } rest

def URL.escapedPath (u : URL) : Bytes :=
  if u.rawPath ≠ [] ∧ validEncoded u.rawPath = true ∧ unescape u.rawPath = some u.path then u.rawPath
  else if u.path = [asterisk] then [asterisk]
  else escape u.path

def URL.requestURI (u : URL) : Bytes :=
  let result :=
    if u.rootless = [] then if u.escapedPath = [] then [slash] else u.escapedPath
    else if [slash, slash] <+: u.rootless then u.scheme ++ colon :: u.rootless
    else u.rootless
  if u.forceQuery = true ∨ u.rawQuery ≠ [] then result ++ question :: u.rawQuery else result

section

variable {p path : Bytes} {u : URL}

-- A path that can be read and has no other bytes than a path may have is written as it was read.
theorem escapedPath_setPath (hread : unescape p = some path) (hvalid : validEncoded p = true) (hne : p ≠ [])
    (hpath : path ≠ [asterisk]) : ∃ u', u.setPath p = some u' ∧ u'.escapedPath = p ∧ u'.rootless = u.rootless ∧
      u'.forceQuery = u.forceQuery ∧ u'.rawQuery = u.rawQuery := by
  refine ⟨{ u with path := path, rawPath := if p = escape path then [] else p }, ?_, ?_, rfl, rfl, rfl⟩
  · rw [URL.setPath, hread]
    rfl
  by_cases hescape : p = escape path
  · rw [URL.escapedPath, if_neg (by simp [hescape]), if_neg hpath, hescape]
  · rw [URL.escapedPath, if_pos]
    · rw [if_neg hescape]
    · rw [if_neg hescape]
      exact ⟨hne, hvalid, hread⟩

theorem cutQuery_none (h : question ∉ p) : cutQuery p = (p, false, []) := by
  have hall : ∀ b ∈ p, (b != question) = true := fun b hb => by
    rw [bne_iff_ne]
    rintro rfl
    exact h hb
  have hcount : p.count question = 0 := List.count_eq_zero.2 h
  have htake : (p ++ []).takeWhile (· != question) = p ++ [] := List.takeWhile_append_of_pos hall
  have hdrop : (p ++ []).dropWhile (· != question) = [] := List.dropWhile_append_of_pos hall
  rw [List.append_nil] at htake hdrop
  rw [cutQuery, if_neg (by rw [hcount]; simp), htake, hdrop]
  rfl

theorem cutQuery_append (h : question ∉ p) (query : Bytes) :
    cutQuery (p ++ question :: query) = (p, decide (query = []), query) := by
  have hall : ∀ b ∈ p, (b != question) = true := fun b hb => by
    rw [bne_iff_ne]
    rintro rfl
    exact h hb
  have hcount : p.count question = 0 := List.count_eq_zero.2 h
  have hlength : (p ++ question :: query).count question = query.count question + 1 := by
    rw [List.count_append, hcount, List.count_cons_self]
    omega
  rw [cutQuery, hlength]
  by_cases hquery : query = []
  · rw [hquery, if_pos]
    · simp
    · simp
  · have hnot : ¬ ((p ++ question :: query).getLast? = some question ∧ query.count question + 1 = 1) := by
      rintro ⟨hlast, hone⟩
      -- the last byte of the query would be another question mark
      rw [List.getLast?_append_of_ne_nil _ (by simp), List.getLast?_cons_of_ne_nil hquery] at hlast
      have hmem := List.mem_of_getLast? hlast
      have hpos := List.count_pos_iff.2 hmem
      omega
    rw [if_neg hnot, List.takeWhile_append_of_pos hall, List.dropWhile_append_of_pos hall,
      List.takeWhile_cons_of_neg (by simp), List.dropWhile_cons_of_neg (by simp), List.append_nil, decide_eq_false hquery]
    rfl

theorem getScheme_slash (rest : Bytes) : getScheme (slash :: rest) = some ([], slash :: rest) := by
  rw [getScheme, getSchemeAux, if_neg (by decide), if_neg (by decide), if_neg (by decide)]

-- A target that starts with a slash and can be read is reproduced.
theorem requestURI_parseRequestURI (hslash : ∃ rest, p = slash :: rest)
    (hread : unescape p = some path) (hvalid : validEncoded p = true) (hquestion : question ∉ p)
    (hpath : path ≠ [asterisk]) {tail : Bytes} (htail : tail = [] ∨ ∃ query, tail = question :: query)
    (hcontrol : (p ++ tail).any (fun b => decide (b < 0x20) || b == 0x7f) = false) :
    ∃ u, parseRequestURI (p ++ tail) = some u ∧ u.requestURI = p ++ tail ∧ u.rootless = [] := by
  obtain ⟨rest, rfl⟩ := hslash
  obtain ⟨forceQuery, rawQuery, hcut, hback⟩ : ∃ forceQuery rawQuery,
      cutQuery (slash :: rest ++ tail) = (slash :: rest, forceQuery, rawQuery) ∧
        (if forceQuery = true ∨ rawQuery ≠ [] then question :: rawQuery else []) = tail := by
    rcases htail with rfl | ⟨query, rfl⟩
    · exact ⟨false, [], by rw [List.append_nil, cutQuery_none hquestion], by simp⟩
    · refine ⟨_, _, cutQuery_append hquestion query, if_pos ?_⟩
      by_cases hquery : query = []
      · exact .inl (decide_eq_true hquery)
      · exact .inr hquery
  obtain ⟨u, hset, hescaped, hrootless, hforce, hquery⟩ := escapedPath_setPath hread hvalid (by simp) hpath
    (u := ⟨[], [], none, [], [], [], false, forceQuery, rawQuery⟩)
  have hscheme := getScheme_slash (rest ++ tail)
  refine ⟨u, ?_, ?_, hrootless⟩
  · rw [List.cons_append] at hcut hcontrol ⊢
    rw [parseRequestURI, if_neg (by rw [hcontrol]; simp), if_neg (by simp [slash, asterisk]), hscheme]
    simp only [Option.bind_eq_bind, Option.bind_some, hcut, List.map_nil]
    rw [if_neg (by simp), if_neg (by simp)]
    exact hset
  · rw [URL.requestURI, hrootless, hescaped, hforce, hquery]
    have hresult : (if slash :: rest = [] then [slash] else slash :: rest) = slash :: rest := if_neg (by simp)
    simp only [if_true, hresult]
    rw [← hback]
    split
    · rfl
    · rw [List.append_nil]

end

section

variable {s t : Bytes} {scheme authority host path p raw rest : Bytes} {u : URL}

theorem getSchemeAux_cases {i : Nat} (h : getSchemeAux raw i s = some (scheme, rest)) (hrest : raw.drop i = s) :
    scheme = [] ∨ raw = scheme ++ colon :: rest := by
  induction s generalizing i with
  | nil =>
      cases h
      exact .inl rfl
  | cons b s ih =>
      have hnext : raw.drop (i + 1) = s := by
        rw [← List.drop_drop, hrest]
        rfl
      rw [getSchemeAux] at h
      split at h
      · exact ih h hnext
      split at h
      · split at h
        · cases h
          exact .inl rfl
        · exact ih h hnext
      split at h
      · rename_i hcolon
        split at h
        · cases h
        · cases h
          refine .inr ?_
          rw [← hcolon, ← hrest, List.take_append_drop]
      · cases h
        exact .inl rfl

theorem getScheme_cases (h : getScheme raw = some (scheme, rest)) : scheme = [] ∨ raw = scheme ++ colon :: rest :=
  getSchemeAux_cases h rfl

-- Without a query there is nothing after the path, or a question mark alone.
theorem eq_of_cutQuery {forceQuery : Bool} (h : cutQuery s = (p, forceQuery, [])) :
    s = p ++ if forceQuery then [question] else [] := by
  rw [cutQuery] at h
  split at h
  · rename_i hlast
    cases h
    exact (List.dropLast_append_getLast? question hlast.1).symm
  · rename_i hnot
    obtain ⟨hp, hforce, hquery⟩ : s.takeWhile (· != question) = p ∧ false = forceQuery ∧
        (s.dropWhile (· != question)).tail = [] := by
      simpa using h
    have hsplit : s.takeWhile (· != question) ++ s.dropWhile (· != question) = s := List.takeWhile_append_dropWhile
    cases hafter : s.dropWhile (· != question) with
    | nil =>
        rw [hafter, hp] at hsplit
        rw [← hforce]
        exact hsplit.symm
    | cons b after =>
        have hb : b = question := by
          have hhead := List.head?_dropWhile_not (· != question) s
          rw [hafter] at hhead
          simpa using hhead
        rw [hafter] at hquery
        obtain rfl : after = [] := hquery
        -- that question mark would be the last and the only one
        refine absurd ⟨?_, ?_⟩ hnot
        · rw [← hsplit, hafter, hb]
          simp
        · have hfree : question ∉ s.takeWhile (· != question) := fun hmem => by
            have := List.mem_takeWhile_imp hmem
            simp at this
          rw [← hsplit, hafter, hb, List.count_append, List.count_eq_zero.2 hfree]
          simp

-- Everything that is read of an address with a host and no query.
theorem parseRequestURI_host (h : parseRequestURI raw = some u) (hhost : u.host ≠ []) (hquery : u.rawQuery = []) :
    ∃ scheme authority p, raw = scheme ++ [colon, slash, slash] ++ authority ++ p ++ (if u.forceQuery then [question] else []) ∧
      u.scheme = scheme.map lower ∧ parseAuthority u.scheme authority = some (u.user, u.host) ∧
      (p = [] ∨ p.head? = some slash) ∧ unescape p = some u.path ∧ u.rawPath = if p = escape u.path then [] else p := by
  rw [parseRequestURI] at h
  split at h
  · cases h
  split at h
  · cases h
    exact absurd rfl hhost
  obtain ⟨⟨scheme, rest⟩, hscheme, h⟩ := Option.bind_eq_some_iff.1 h
  rcases hcut : cutQuery rest with ⟨rest', forceQuery, rawQuery⟩
  simp only [hcut] at h
  split at h
  · split at h
    · cases h
    · cases h
      exact absurd rfl hhost
  split at h
  · rename_i hslash hslashes
    obtain ⟨⟨user, host⟩, hauthority, h⟩ := Option.bind_eq_some_iff.1 h
    obtain ⟨path, hpath, h⟩ := Option.bind_eq_some_iff.1 h
    cases h
    obtain rfl : rawQuery = [] := hquery
    obtain ⟨after, rfl⟩ := hslashes.2
    have hraw := (getScheme_cases hscheme).resolve_left hslashes.1
    refine ⟨scheme, after.takeWhile (· != slash), after.dropWhile (· != slash), ?_, rfl, hauthority, ?_, hpath, rfl⟩
    · rw [hraw, eq_of_cutQuery hcut]
      simp [List.takeWhile_append_dropWhile]
    · cases hafter : after.dropWhile (· != slash) with
      | nil => exact .inl rfl
      | cons b rest =>
          have hhead := List.head?_dropWhile_not (· != slash) after
          rw [hafter] at hhead
          exact .inr (by simpa using hhead)
  · obtain ⟨path, hpath, h⟩ := Option.bind_eq_some_iff.1 h
    cases h
    exact absurd rfl hhost

theorem unhex_cases {b : UInt8} {n : Nat} (h : unhex b = some n) : n < 16 ∧ shouldEscape b = false := by
  have hall : ∀ k : Fin 256, ∀ n ∈ unhex (UInt8.ofNat k), n < 16 ∧ shouldEscape (UInt8.ofNat k) = false := by
    decide +kernel
  have hb := hall ⟨b.toNat, b.toNat_lt⟩ n
  rw [UInt8.ofNat_toNat] at hb
  exact hb h

-- A host of plain bytes was written as it is read.
theorem eq_of_unescapeHost (h : unescapeHost false s = some host) (hplain : ∀ b ∈ host, b < 0x80 ∧ b ≠ percent) :
    s = host := by
  induction s using unescapeHost.induct generalizing host with
  | case1 => exact Option.some.inj h
  | case2 b hb =>
      rw [unescapeHost, if_pos hb] at h
      exact Option.some.inj h
  | case3 b hb =>
      rw [unescapeHost, if_neg hb] at h
      cases h
  | case4 b c hbc =>
      rw [unescapeHost, if_pos hbc] at h
      exact Option.some.inj h
  | case5 b c hbc =>
      rw [unescapeHost, if_neg hbc] at h
      cases h
  | case6 c d rest ih =>
      rw [unescapeHost, if_pos rfl] at h
      obtain ⟨high, hhigh, h⟩ := Option.bind_eq_some_iff.1 h
      obtain ⟨low, hlow, h⟩ := Option.bind_eq_some_iff.1 h
      obtain ⟨after, hafter, h⟩ := Option.bind_eq_some_iff.1 h
      split at h
      · rename_i hescape
        cases h
        -- what an escape stands for is no plain byte
        obtain ⟨hascii, hpercent⟩ := hplain _ List.mem_cons_self
        have hhigh16 := (unhex_cases hhigh).1
        have hlow16 := (unhex_cases hlow).1
        simp only [hostEscape, beq_eq_false_iff_ne.2 hpercent, Bool.false_or, Bool.false_eq_true, if_false,
          decide_eq_true_eq] at hescape
        rw [UInt8.lt_iff_toNat_lt, UInt8.toNat_ofNat'] at hascii
        have hvalue : (0x80 : UInt8).toNat = 128 := rfl
        omega
      · cases h
  | case7 b c d rest hb ih =>
      rw [unescapeHost, if_neg hb] at h
      obtain ⟨after, hafter, h⟩ := Option.bind_eq_some_iff.1 h
      split at h
      · cases h
        rw [ih hafter fun c hc => hplain c (List.mem_cons_of_mem _ hc)]
      · cases h

theorem parseLiteral_head (h : parseLiteral s = some host) : host.head? = some openBracket := by
  rw [parseLiteral] at h
  split at h
  · obtain ⟨port, -, h⟩ := Option.bind_eq_some_iff.1 h
    obtain ⟨name, -, h⟩ := Option.bind_eq_some_iff.1 h
    split at h
    · cases h
      rfl
    · cases h
  · cases h

theorem eq_of_parseHost (h : parseHost scheme s = some host) (hplain : ∀ b ∈ host, b < 0x80 ∧ b ≠ percent)
    (hname : host.head? ≠ some openBracket) : s = host := by
  rw [parseHost] at h
  split at h
  · cases h
  split at h
  · exact absurd (parseLiteral_head h) hname
  split at h
  · exact eq_of_unescapeHost h hplain
  · cases h

theorem afterLast_of_notMem {sep : UInt8} (h : sep ∉ s) : afterLast sep s = s := by
  have hall : ∀ b ∈ s.reverse, (b != sep) = true := fun b hb => by
    rw [bne_iff_ne]
    rintro rfl
    exact h (List.mem_reverse.1 hb)
  rw [afterLast, List.takeWhile_eq_self_iff.2 hall, List.reverse_reverse]

theorem eq_of_parseAuthority (h : parseAuthority scheme authority = some (none, host))
    (hplain : ∀ b ∈ host, b < 0x80 ∧ b ≠ percent) (hname : host.head? ≠ some openBracket) : authority = host := by
  obtain ⟨host', hhost, h⟩ := Option.bind_eq_some_iff.1 h
  split at h
  · rename_i hnone
    cases h
    rw [afterLast_of_notMem hnone] at hhost
    exact eq_of_parseHost hhost hplain hname
  · obtain ⟨user, -, h⟩ := Option.bind_eq_some_iff.1 h
    cases h

-- What is read as a path without special bytes has none but percent signs.
theorem validEncoded_of_unescape (h : unescape p = some path) (hplain : ∀ b ∈ path, shouldEscape b = false) :
    validEncoded p = true := by
  have hkept : ∀ {b : UInt8}, shouldEscape b = false → (encodable.contains b || !shouldEscape b) = true := fun hb => by
    rw [hb]
    simp
  have hpercent : (encodable.contains percent || !shouldEscape percent) = true := by decide
  induction p using unescape.induct generalizing path with
  | case1 => rfl
  | case2 =>
      rw [unescape, if_pos rfl] at h
      cases h
  | case3 b hb =>
      rw [unescape, if_neg hb] at h
      cases h
      rw [validEncoded, List.all_cons, hkept (hplain b List.mem_cons_self)]
      rfl
  | case4 b c hbc =>
      rw [unescape, if_pos hbc] at h
      cases h
  | case5 b c hbc =>
      rw [unescape, if_neg hbc] at h
      cases h
      rw [validEncoded, List.all_cons, List.all_cons, hkept (hplain b List.mem_cons_self),
        hkept (hplain c (List.mem_cons_of_mem _ List.mem_cons_self))]
      rfl
  | case6 c d rest ih =>
      rw [unescape, if_pos rfl] at h
      obtain ⟨high, hhigh, h⟩ := Option.bind_eq_some_iff.1 h
      obtain ⟨low, hlow, h⟩ := Option.bind_eq_some_iff.1 h
      obtain ⟨after, hafter, h⟩ := Option.bind_eq_some_iff.1 h
      cases h
      have hrest := ih hafter fun c hc => hplain c (List.mem_cons_of_mem _ hc)
      rw [validEncoded, List.all_cons, List.all_cons, List.all_cons, hpercent, hkept (unhex_cases hhigh).2,
        hkept (unhex_cases hlow).2]
      exact hrest
  | case7 b c d rest hb ih =>
      rw [unescape, if_neg hb] at h
      obtain ⟨after, hafter, h⟩ := Option.bind_eq_some_iff.1 h
      cases h
      have hrest := ih hafter fun c hc => hplain c (List.mem_cons_of_mem _ hc)
      rw [validEncoded, List.all_cons, hkept (hplain b List.mem_cons_self)]
      exact hrest

theorem escape_of_plain (hplain : ∀ b ∈ path, shouldEscape b = false) : escape path = path := by
  induction path with
  | nil => rfl
  | cons b path ih =>
      rw [escape, List.flatMap_cons, escapeByte, hplain b List.mem_cons_self]
      simp only [Bool.false_eq_true, if_false, List.singleton_append]
      rw [← escape, ih fun c hc => hplain c (List.mem_cons_of_mem _ hc)]

-- A path without special bytes that is written as it is was read as it is.
theorem eq_of_escapedPath (hread : unescape p = some u.path) (hraw : u.rawPath = if p = escape u.path then [] else p)
    (hplain : ∀ b ∈ u.path, shouldEscape b = false) (h : u.escapedPath = u.path) : p = u.path := by
  rw [escape_of_plain hplain] at hraw
  by_contra hne
  rw [if_neg hne] at hraw
  have hp : p ≠ [] := by
    rintro rfl
    exact hne (Option.some.inj hread)
  rw [URL.escapedPath, hraw, if_pos ⟨hp, validEncoded_of_unescape hread hplain, hread⟩] at h
  exact hne h

end

end Url

end AutoDeploy.Lib
