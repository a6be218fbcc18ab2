import AutoDeploy.Lib.Yaml
import AutoDeploy.Traefik.Names

namespace AutoDeploy.Traefik

open Lib Lib.Result Text Yaml

-- The same function on any bytes.
def quoteYAML (s : Bytes) : Except RouteError Bytes := do
  let body ← quoteYAMLBody 0 s
  pure (0x22 :: body ++ [0x22])

theorem quoteYAMLBody_ok {s : Bytes} (h : ∀ b ∈ s, ¬ 0x80 ≤ b) (offset : Nat) :
    quoteYAMLBody offset s = .ok (s.flatMap escapeYAMLByte) := by
  induction s generalizing offset with
  | nil => rfl
  | cons b s ih =>
      rw [quoteYAMLBody, if_neg (h b List.mem_cons_self), ih (fun c hc => h c (List.mem_cons_of_mem _ hc)) (offset + 1)]
      rfl

-- The first byte outside of ASCII is the one that is reported.
theorem quoteYAMLBody_error {s : Bytes} (h : ∃ b ∈ s, 0x80 ≤ b) (offset : Nat) :
    ∃ e, quoteYAMLBody offset s = .error e := by
  induction s generalizing offset with
  | nil =>
      obtain ⟨b, hb, -⟩ := h
      exact absurd hb List.not_mem_nil
  | cons c s ih =>
      by_cases hc : 0x80 ≤ c
      · exact ⟨_, by rw [quoteYAMLBody, if_pos hc]⟩
      · obtain ⟨b, hb, hbig⟩ := h
        rcases List.mem_cons.1 hb with rfl | hb
        · exact absurd hbig hc
        · obtain ⟨e, he⟩ := ih ⟨b, hb, hbig⟩ (offset + 1)
          refine ⟨e, ?_⟩
          rw [quoteYAMLBody, if_neg hc, he]
          rfl

theorem quoteYAML_error_iff (s : Bytes) : (∃ e, quoteYAML s = .error e) ↔ ∃ b ∈ s, 0x80 ≤ b := by
  constructor
  · rintro ⟨e, he⟩
    by_contra hnone
    have hall : ∀ b ∈ s, ¬ 0x80 ≤ b := fun b hb hbig => hnone ⟨b, hb, hbig⟩
    rw [quoteYAML, quoteYAMLBody_ok hall] at he
    cases he
  · intro h
    obtain ⟨e, he⟩ := quoteYAMLBody_error h 0
    refine ⟨e, ?_⟩
    rw [quoteYAML, he]
    rfl

theorem quoteYAML_eq_ok {s q : Bytes} (h : quoteYAML s = .ok q) :
    (∀ b ∈ s, ¬ 0x80 ≤ b) ∧ q = quote :: s.flatMap escapeYAMLByte ++ [quote] := by
  have hall : ∀ b ∈ s, ¬ 0x80 ≤ b := by
    intro b hb hbig
    obtain ⟨e, he⟩ := (quoteYAML_error_iff s).2 ⟨b, hb, hbig⟩
    rw [he] at h
    cases h
  refine ⟨hall, ?_⟩
  rw [quoteYAML, quoteYAMLBody_ok hall] at h
  exact (Except.ok.inj h).symm

theorem hexValue_hexUpper : ∀ n < 16, Bytes.hexValue (Char.ofNat (hexUpper n).toNat) = some n := by decide

-- Every byte of one escape is printable.
theorem escapeYAMLByte_printable {b c : UInt8} (hb : ¬ 0x80 ≤ b) (h : c ∈ escapeYAMLByte b) : 0x20 ≤ c ∧ c ≤ 0x7e := by
  have hall : (List.range 128).all (fun n => (escapeYAMLByte (UInt8.ofNat n)).all fun c =>
      decide (0x20 ≤ c) && decide (c ≤ 0x7e)) = true := by
    decide
  have hlt : b.toNat < 128 := by
    rw [UInt8.le_iff_toNat_le] at hb
    exact Nat.not_le.1 hb
  have hsame : UInt8.ofNat b.toNat = b := UInt8.ofNat_toNat
  have hbyte := List.all_eq_true.1 hall b.toNat (List.mem_range.2 hlt)
  rw [hsame] at hbyte
  simpa using List.all_eq_true.1 hbyte c h

theorem quoteYAML_printable {s q : Bytes} (h : quoteYAML s = .ok q) : Printable q := by
  intro c hc
  obtain ⟨hall, rfl⟩ := quoteYAML_eq_ok h
  rw [List.mem_append, List.mem_cons, List.mem_singleton, List.mem_flatMap] at hc
  rcases hc with (rfl | ⟨b, hb, hc⟩) | rfl
  · decide
  · exact escapeYAMLByte_printable (hall b hb) hc
  · decide

-- Each byte is read back from its escape.
theorem inside_escapeYAMLByte {b : UInt8} (hb : ¬ 0x80 ≤ b) {fuel : Nat} {rest value after : Bytes}
    (h : inside fuel rest = some (value, after)) :
    inside (fuel + 1) (escapeYAMLByte b ++ rest) = some (b :: value, after) := by
  have hlt : b.toNat < 0x80 := by
    rw [UInt8.le_iff_toNat_le] at hb
    exact Nat.not_le.1 hb
  have hletter (e : UInt8) (he : letters.lookup e = some b.toNat) :
      inside (fuel + 1) ([backslash, e] ++ rest) = some (b :: value, after) := by
    have hescape := escape_letter he hlt rest
    rw [UInt8.ofNat_toNat] at hescape
    exact inside_escape hescape h
  unfold escapeYAMLByte
  by_cases hbackslash : b = 0x5c
  · rw [if_pos hbackslash]
    exact hletter 0x5c (by rw [hbackslash]; decide)
  rw [if_neg hbackslash]
  by_cases hquote : b = 0x22
  · rw [if_pos hquote]
    exact hletter 0x22 (by rw [hquote]; decide)
  rw [if_neg hquote]
  by_cases hnewline : b = 0x0a
  · rw [if_pos hnewline]
    exact hletter 0x6e (by rw [hnewline]; decide)
  rw [if_neg hnewline]
  by_cases hreturn : b = 0x0d
  · rw [if_pos hreturn]
    exact hletter 0x72 (by rw [hreturn]; decide)
  rw [if_neg hreturn]
  by_cases htab : b = 0x09
  · rw [if_pos htab]
    exact hletter 0x74 (by rw [htab]; decide)
  rw [if_neg htab]
  by_cases hcontrol : b < 0x20 ∨ b = 0x7f
  · rw [if_pos hcontrol]
    have hvalue : 16 * (b.toNat / 16) + b.toNat % 16 = b.toNat := by omega
    have hescape := escape_hex (hexValue_hexUpper (b.toNat / 16) (by omega)) (hexValue_hexUpper (b.toNat % 16) (by omega))
      (by omega) rest
    rw [hvalue, UInt8.ofNat_toNat] at hescape
    exact inside_escape hescape h
  · rw [if_neg hcontrol]
    have hprintable : 0x20 ≤ b := by
      rw [not_or, UInt8.not_lt] at hcontrol
      exact hcontrol.1
    exact inside_plain hquote hbackslash hprintable h

theorem inside_flatMap {s : Bytes} (h : ∀ b ∈ s, ¬ 0x80 ≤ b) {fuel : Nat} (hfuel : s.length < fuel) (rest : Bytes) :
    inside fuel (s.flatMap escapeYAMLByte ++ quote :: rest) = some (s, rest) := by
  induction s generalizing fuel with
  | nil =>
      obtain ⟨fuel, rfl⟩ : ∃ k, fuel = k + 1 := ⟨fuel - 1, by simp at hfuel; omega⟩
      exact inside_quote fuel rest
  | cons b s ih =>
      rw [List.length_cons] at hfuel
      obtain ⟨fuel, rfl⟩ : ∃ k, fuel = k + 1 := ⟨fuel - 1, by omega⟩
      have hrest := ih (fun c hc => h c (List.mem_cons_of_mem _ hc)) (show s.length < fuel by omega)
      rw [List.flatMap_cons, List.append_assoc]
      exact inside_escapeYAMLByte (h b List.mem_cons_self) hrest

theorem length_le_flatMap (s : Bytes) : s.length ≤ (s.flatMap escapeYAMLByte).length := by
  have hne (b : UInt8) : 0 < (escapeYAMLByte b).length := by
    unfold escapeYAMLByte
    repeat' split
    all_goals simp
  induction s with
  | nil => exact Nat.le_refl 0
  | cons b s ih =>
      have hb := hne b
      rw [List.flatMap_cons, List.length_append, List.length_cons]
      omega

-- What was quoted is read back, whatever follows.
theorem readQuoted_quoteYAML {s q : Bytes} (h : quoteYAML s = .ok q) (rest : Bytes) :
    readQuoted (q ++ rest) = some (s, rest) := by
  obtain ⟨hall, rfl⟩ := quoteYAML_eq_ok h
  have hlength := length_le_flatMap s
  have htext : quote :: s.flatMap escapeYAMLByte ++ [quote] ++ rest = quote :: (s.flatMap escapeYAMLByte ++ quote :: rest) := by
    simp
  rw [htext, readQuoted, if_pos rfl]
  refine inside_flatMap hall ?_ rest
  rw [List.length_append, List.length_cons]
  omega

theorem doubleQuoted_quoteYAML {s q : Bytes} (h : quoteYAML s = .ok q) : doubleQuoted q = some s := by
  have hread := readQuoted_quoteYAML h []
  rw [List.append_nil] at hread
  simp [doubleQuoted, hread]

def documentComments (r : EnvironmentRoute) : Bytes :=
  line "# Generated by autodeploy internal/runtime/traefik. Do not edit by hand;\n" ++
  line "# this file is replaced atomically on every activation.\n" ++
  line ("# environment: " ++ r.environmentID ++ "\n") ++
  line ("# route_revision: " ++ toString r.routeRevision ++ "\n")

-- The other lines of the document, by their indentation.
def documentLines (router rule entrypoint service resolver url : Bytes) : List Line := [
  ⟨0, Bytes.ofString "http" ++ [colon]⟩,
  ⟨2, Bytes.ofString "routers" ++ [colon]⟩,
  ⟨4, router ++ [colon]⟩,
  ⟨6, Bytes.ofString "rule" ++ colon :: space :: rule⟩,
  ⟨6, Bytes.ofString "entryPoints" ++ [colon]⟩,
  ⟨8, hyphen :: space :: entrypoint⟩,
  ⟨6, Bytes.ofString "service" ++ colon :: space :: service⟩,
  ⟨6, Bytes.ofString "tls" ++ [colon]⟩,
  ⟨8, Bytes.ofString "certResolver" ++ colon :: space :: resolver⟩,
  ⟨2, Bytes.ofString "services" ++ [colon]⟩,
  ⟨4, service ++ [colon]⟩,
  ⟨6, Bytes.ofString "loadBalancer" ++ [colon]⟩,
  ⟨8, Bytes.ofString "servers" ++ [colon]⟩,
  ⟨10, hyphen :: space :: (Bytes.ofString "url" ++ colon :: space :: url)⟩]

theorem renderDocument_lines {r : EnvironmentRoute} {router service url : String} {qrouter qrule qentrypoint qservice
    qresolver qurl : Bytes} (hrouter : quoteYAMLString router = .ok qrouter)
    (hrule : quoteYAMLString (ruleValue r.hostname) = .ok qrule)
    (hentrypoint : quoteYAMLString r.entrypointName = .ok qentrypoint)
    (hservice : quoteYAMLString service = .ok qservice) (hresolver : quoteYAMLString r.certResolverName = .ok qresolver)
    (hurl : quoteYAMLString url = .ok qurl) :
    renderDocument r router service url = .ok (documentComments r ++
      (documentLines qrouter qrule qentrypoint qservice qresolver qurl).flatMap Line.write) := by
  have h1 : line "http:\n" = List.replicate 0 space ++ (Bytes.ofString "http" ++ [colon] ++ [newline]) := by decide
  have h2 : line "  routers:\n" = List.replicate 2 space ++ (Bytes.ofString "routers" ++ [colon] ++ [newline]) := by
    decide
  have h3 : line "    " = List.replicate 4 space := by decide
  have h4 : line ":\n" = [colon] ++ [newline] := by decide
  have h5 : line "      rule: " = List.replicate 6 space ++ (Bytes.ofString "rule" ++ [colon, space]) := by decide
  have h6 : line "\n" = [newline] := by decide
  have h7 : line "      entryPoints:\n" =
      List.replicate 6 space ++ (Bytes.ofString "entryPoints" ++ [colon] ++ [newline]) := by decide
  have h8 : line "        - " = List.replicate 8 space ++ [hyphen, space] := by decide
  have h9 : line "      service: " = List.replicate 6 space ++ (Bytes.ofString "service" ++ [colon, space]) := by
    decide
  have h10 : line "      tls:\n" = List.replicate 6 space ++ (Bytes.ofString "tls" ++ [colon] ++ [newline]) := by
    decide
  have h11 : line "        certResolver: " =
      List.replicate 8 space ++ (Bytes.ofString "certResolver" ++ [colon, space]) := by decide
  have h12 : line "  services:\n" = List.replicate 2 space ++ (Bytes.ofString "services" ++ [colon] ++ [newline]) := by
    decide
  have h13 : line "      loadBalancer:\n" =
      List.replicate 6 space ++ (Bytes.ofString "loadBalancer" ++ [colon] ++ [newline]) := by decide
  have h14 : line "        servers:\n" = List.replicate 8 space ++ (Bytes.ofString "servers" ++ [colon] ++ [newline]) := by
    decide
  have h15 : line "          - url: " =
      List.replicate 10 space ++ ([hyphen, space] ++ (Bytes.ofString "url" ++ [colon, space])) := by decide
  simp only [renderDocument, hrouter, hrule, hentrypoint, hservice, hresolver, hurl, ok_bind]
  refine pure_eq_ok.2 ?_
  simp only [documentComments, documentLines, List.flatMap_cons, List.flatMap_nil, Line.write, h1, h2, h3, h4, h5, h6, h7,
    h8, h9, h10, h11, h12, h13, h14, h15, List.append_assoc, List.cons_append, List.nil_append, List.append_nil]

-- The structure that the document is written for.
def intended (r : EnvironmentRoute) (url : String) : Yaml :=
  .mapping [(Bytes.ofString "http", .mapping [
    (Bytes.ofString "routers", .mapping [
      (Bytes.ofString (routerName r), .mapping [
        (Bytes.ofString "rule", .text (Bytes.ofString (ruleValue r.hostname))),
        (Bytes.ofString "entryPoints", .sequence [.text (Bytes.ofString r.entrypointName)]),
        (Bytes.ofString "service", .text (Bytes.ofString (serviceName r))),
        (Bytes.ofString "tls", .mapping [
          (Bytes.ofString "certResolver", .text (Bytes.ofString r.certResolverName))])])]),
    (Bytes.ofString "services", .mapping [
      (Bytes.ofString (serviceName r), .mapping [
        (Bytes.ofString "loadBalancer", .mapping [
          (Bytes.ofString "servers", .sequence [.mapping [
            (Bytes.ofString "url", .text (Bytes.ofString url))]])])])])])]

-- What the parser sees of a quoted text.
structure Quoted (q value : Bytes) : Prop where
  head : ∃ rest, q = quote :: rest
  read : ∀ rest, readQuoted (q ++ rest) = some (value, rest)

theorem Quoted.of {s q : Bytes} (h : quoteYAML s = .ok q) : Quoted q s where
  head := by
    obtain ⟨-, rfl⟩ := quoteYAML_eq_ok h
    exact ⟨_, rfl⟩
  read rest := readQuoted_quoteYAML h rest

theorem Quoted.scalar {q value : Bytes} (h : Quoted q value) : q.head? = some quote ∧ readQuoted q = some (value, []) := by
  obtain ⟨rest, hq⟩ := h.head
  have hread := h.read []
  rw [List.append_nil] at hread
  exact ⟨by rw [hq]; rfl, hread⟩

theorem Quoted.key {q value : Bytes} (h : Quoted q value) (hlength : q.length ≤ maxKey) :
    readKey (q ++ [colon]) = some (value, none) := readKey_quoted h.scalar.1 hlength (h.read [colon])

theorem Quoted.undashed {q value : Bytes} (h : Quoted q value) (rest : Bytes) : dashed (q ++ rest) = false := by
  obtain ⟨tail, rfl⟩ := h.head
  exact dashed_of_head (by decide) _

theorem Quoted.text {q value : Bytes} (h : Quoted q value) {word : Bytes} (hword : isWord word = true)
    (hlength : word.length ≤ maxKey) : readKey (word ++ colon :: space :: q) = some (word, some value) :=
  readKey_text hword hlength h.scalar.1 h.scalar.2

theorem Quoted.node {q value : Bytes} (h : Quoted q value) (fuel indent : Nat) (rest : List Line) :
    node (fuel + 1) (⟨indent, q⟩ :: rest) = some (.text value, rest) := by
  obtain ⟨hhead, hread⟩ := h.scalar
  have hdash := h.undashed []
  rw [List.append_nil] at hdash
  exact node_text hdash (readKey_scalar hhead hread) (by rw [readScalar, if_pos hhead, hread])

-- A line that is a word and a colon.
structure WordLine (l : Line) (word : Bytes) : Prop where
  undashed : dashed l.content = false
  key : readKey l.content = some (word, none)

theorem WordLine.of (word : String) (hword : isWord (Bytes.ofString word) = true)
    (hlength : (Bytes.ofString word).length ≤ maxKey) (hdash : dashed (Bytes.ofString word ++ [colon]) = false)
    (indent : Nat) : WordLine ⟨indent, Bytes.ofString word ++ [colon]⟩ (Bytes.ofString word) :=
  ⟨hdash, readKey_word hword hlength⟩

theorem node_service {service url : Bytes} {qservice qurl : Bytes} (hservice : Quoted qservice service)
    (hurl : Quoted qurl url) (hlength : qservice.length ≤ maxKey) (fuel : Nat) :
    node (fuel + 11) [⟨4, qservice ++ [colon]⟩, ⟨6, Bytes.ofString "loadBalancer" ++ [colon]⟩,
        ⟨8, Bytes.ofString "servers" ++ [colon]⟩,
        ⟨10, hyphen :: space :: (Bytes.ofString "url" ++ colon :: space :: qurl)⟩] =
      some (.mapping [(service, .mapping [(Bytes.ofString "loadBalancer", .mapping [
        (Bytes.ofString "servers", .sequence [.mapping [(Bytes.ofString "url", .text url)]])])])], []) := by
  have hbalancer := WordLine.of "loadBalancer" (by decide) (by decide) (by decide) 6
  have hservers := WordLine.of "servers" (by decide) (by decide) (by decide) 8
  have hkey : readKey (Bytes.ofString "url" ++ colon :: space :: qurl) = some (Bytes.ofString "url", some url) :=
    hurl.text (by decide) (by decide)
  have hserver : node (fuel + 3) [⟨12, Bytes.ofString "url" ++ colon :: space :: qurl⟩] =
      some (.mapping [(Bytes.ofString "url", .text url)], []) := by
    refine node_mapping ?_ hkey (entries_text hkey (entries_end nofun)) (by simp)
    exact dashed_of_head (b := 0x75) (by decide) _
  have hlist := node_item (l := ⟨10, hyphen :: space :: (Bytes.ofString "url" ++ colon :: space :: qurl)⟩) rfl hserver nofun
  have hnested := node_singleton hservers.undashed hservers.key ⟨_, rfl, by simp⟩ hlist nofun
  have hbalanced := node_singleton hbalancer.undashed hbalancer.key ⟨_, rfl, by simp⟩ hnested nofun
  exact node_singleton (hservice.undashed [colon]) (hservice.key hlength) ⟨_, rfl, by simp⟩ hbalanced nofun

theorem node_router {router rule entrypoint service resolver : Bytes} {qrouter qrule qentrypoint qservice qresolver : Bytes}
    (hrouter : Quoted qrouter router) (hrule : Quoted qrule rule) (hentrypoint : Quoted qentrypoint entrypoint)
    (hservice : Quoted qservice service) (hresolver : Quoted qresolver resolver) (hlength : qrouter.length ≤ maxKey)
    {first : Line} (hfirst : first.indent < 4) (more : List Line) (fuel : Nat) :
    node (fuel + 11) (⟨4, qrouter ++ [colon]⟩ :: ⟨6, Bytes.ofString "rule" ++ colon :: space :: qrule⟩ ::
        ⟨6, Bytes.ofString "entryPoints" ++ [colon]⟩ :: ⟨8, hyphen :: space :: qentrypoint⟩ ::
        ⟨6, Bytes.ofString "service" ++ colon :: space :: qservice⟩ :: ⟨6, Bytes.ofString "tls" ++ [colon]⟩ ::
        ⟨8, Bytes.ofString "certResolver" ++ colon :: space :: qresolver⟩ :: first :: more) =
      some (.mapping [(router, .mapping [
        (Bytes.ofString "rule", .text rule), (Bytes.ofString "entryPoints", .sequence [.text entrypoint]),
        (Bytes.ofString "service", .text service),
        (Bytes.ofString "tls", .mapping [(Bytes.ofString "certResolver", .text resolver)])])], first :: more) := by
  have hpoints := WordLine.of "entryPoints" (by decide) (by decide) (by decide) 6
  have htls := WordLine.of "tls" (by decide) (by decide) (by decide) 6
  have hend {n : Nat} (hn : 4 ≤ n) : ∀ k ∈ (first :: more).head?, k.indent < n := by
    intro k hk
    obtain rfl := Option.some.inj hk
    exact Nat.lt_of_lt_of_le hfirst hn
  have hresolved : readKey (Bytes.ofString "certResolver" ++ colon :: space :: qresolver) = some (_, some resolver) :=
    hresolver.text (by decide) (by decide)
  have hserved : readKey (Bytes.ofString "service" ++ colon :: space :: qservice) = some (_, some service) :=
    hservice.text (by decide) (by decide)
  have hruled : readKey (Bytes.ofString "rule" ++ colon :: space :: qrule) = some (_, some rule) :=
    hrule.text (by decide) (by decide)
  -- from the last line of the router to the first
  have hsecured : node (fuel + 4) (⟨8, Bytes.ofString "certResolver" ++ colon :: space :: qresolver⟩ :: first :: more) =
      some (.mapping [(Bytes.ofString "certResolver", .text resolver)], first :: more) :=
    node_mapping (dashed_of_head (b := 0x63) (by decide) _) hresolved (entries_text hresolved (entries_end (hend (by simp)))) (by simp)
  have hentries := entries_nested htls.key ⟨_, rfl, by simp⟩ hsecured (entries_end (hend (by simp)))
  have hentries := entries_text (l := ⟨6, _⟩) hserved hentries
  have hitem (k : Line) (hk : k.indent < 8) (ls : List Line) :
      node (fuel + 6) (⟨8, hyphen :: space :: qentrypoint⟩ :: k :: ls) = some (.sequence [.text entrypoint], k :: ls) :=
    node_item rfl (hentrypoint.node (fuel + 3) 10 _) (by simpa using hk)
  have hentries := entries_nested hpoints.key ⟨_, rfl, by simp⟩ (hitem _ (by simp) _) hentries
  have hentries := entries_text (l := ⟨6, _⟩) hruled hentries
  have hunique : [Bytes.ofString "rule", Bytes.ofString "entryPoints", Bytes.ofString "service", Bytes.ofString "tls"].Nodup := by
    decide
  have hbody := node_mapping (dashed_of_head (b := 0x72) (by decide) _) hruled hentries hunique
  exact node_singleton (hrouter.undashed [colon]) (hrouter.key hlength) ⟨_, rfl, by simp⟩ hbody (hend (Nat.le_refl 4))

theorem node_documentLines {r : EnvironmentRoute} {url : String} {qrouter qrule qentrypoint qservice qresolver qurl : Bytes}
    (hrouter : Quoted qrouter (Bytes.ofString (routerName r))) (hrule : Quoted qrule (Bytes.ofString (ruleValue r.hostname)))
    (hentrypoint : Quoted qentrypoint (Bytes.ofString r.entrypointName))
    (hservice : Quoted qservice (Bytes.ofString (serviceName r)))
    (hresolver : Quoted qresolver (Bytes.ofString r.certResolverName)) (hurl : Quoted qurl (Bytes.ofString url))
    (hrouterLength : qrouter.length ≤ maxKey) (hserviceLength : qservice.length ≤ maxKey) (fuel : Nat) :
    node (fuel + 16) (documentLines qrouter qrule qentrypoint qservice qresolver qurl) = some (intended r url, []) := by
  have hhttp := WordLine.of "http" (by decide) (by decide) (by decide) 0
  have hrouters := WordLine.of "routers" (by decide) (by decide) (by decide) 2
  have hservices := WordLine.of "services" (by decide) (by decide) (by decide) 2
  have hentries := entries_nested hservices.key ⟨_, rfl, by simp⟩ (node_service hservice hurl hserviceLength fuel)
    (entries_end nofun)
  have hnext : (⟨2, Bytes.ofString "services" ++ [colon]⟩ : Line).indent < 4 := by simp
  have hentries := entries_nested hrouters.key ⟨_, rfl, by simp⟩
    (node_router hrouter hrule hentrypoint hservice hresolver hrouterLength hnext _ (fuel + 1)) hentries
  have hunique : [Bytes.ofString "routers", Bytes.ofString "services"].Nodup := by decide
  have hbody := node_mapping hrouters.undashed hrouters.key hentries hunique
  exact node_singleton hhttp.undashed hhttp.key ⟨_, rfl, by simp⟩ hbody nofun

theorem printable_of_plain {s : String} (h : Plain s) : Printable (Bytes.ofString s) := by
  have hplain (c : Char) (hc : c ∈ s.toList) : 0x20 ≤ c.toNat ∧ c.toNat ≤ 0x7e := by
    have hchar := h c hc
    simp only [plainChar, Bool.and_eq_true, decide_eq_true_eq] at hchar
    exact ⟨hchar.1.1.1, hchar.1.1.2⟩
  intro b hb
  obtain ⟨c, hc, hvalue⟩ := Utf8.mem_ofString_ascii (fun c hc => Nat.lt_of_le_of_lt (hplain c hc).2 (by decide)) hb
  rw [UInt8.le_iff_toNat_le, UInt8.le_iff_toNat_le, ← hvalue]
  exact hplain c hc

theorem length_of_plain {s : String} (h : Plain s) : (Bytes.ofString s).length = s.toList.length := by
  have hascii (c : Char) (hc : c ∈ s.toList) : c.toNat < 0x80 := by
    have hchar := h c hc
    simp only [plainChar, Bool.and_eq_true, decide_eq_true_eq] at hchar
    exact Nat.lt_of_le_of_lt hchar.1.1.2 (by decide)
  rw [Utf8.ofString_eq_encode, Utf8.encode_ascii hascii, List.length_map]

theorem length_quoted {s : String} (h : Plain s) {q : Bytes} (hq : quoteYAMLString s = .ok q) :
    q.length = s.toList.length + 2 := by
  rw [quoteYAMLString_plain h] at hq
  have hquotes : (Bytes.ofString "\"").length = 1 := by decide
  rw [← Except.ok.inj hq, Bytes.ofString_append, Bytes.ofString_append, List.length_append, List.length_append,
    length_of_plain h, hquotes]
  omega

theorem length_opaqueName {s : String} (h : opaqueName 127 s = true) : s.toList.length ≤ 128 := by
  obtain ⟨c, rest, hs, -, hlength⟩ := opaqueName_head h
  rw [hs, List.length_cons]
  omega

theorem length_toList_append (s t : String) : (s ++ t).toList.length = s.toList.length + t.toList.length :=
  (congrArg List.length String.toList_append).trans List.length_append

theorem length_routerName {r : EnvironmentRoute} (h : r.validate = .ok ()) : (routerName r).toList.length ≤ 146 := by
  have hname := length_opaqueName ((validate_eq_ok r).1 h).1
  have hlabel : "autodeploy-router-".toList.length = 18 := by decide
  have hlength : (routerName r).toList.length = _ := length_toList_append "autodeploy-router-" r.environmentID
  omega

theorem length_serviceName {r : EnvironmentRoute} (h : r.validate = .ok ()) : (serviceName r).toList.length ≤ 401 := by
  obtain ⟨henvironment, -, -, -, -, -, hrelease, hfence⟩ := (validate_eq_ok r).1 h
  have he := length_opaqueName henvironment
  have hr := length_opaqueName hrelease
  have hf := length_opaqueName hfence
  have hlabel : "autodeploy-svc-".toList.length = 15 := by decide
  have hhyphen : "-".toList.length = 1 := by decide
  have hfirst := length_toList_append "autodeploy-svc-" r.environmentID
  have hsecond := length_toList_append ("autodeploy-svc-" ++ r.environmentID) "-"
  have hthird := length_toList_append ("autodeploy-svc-" ++ r.environmentID ++ "-") r.releaseID
  have hfourth := length_toList_append ("autodeploy-svc-" ++ r.environmentID ++ "-" ++ r.releaseID) "-"
  have hlast : (serviceName r).toList.length = _ :=
    length_toList_append ("autodeploy-svc-" ++ r.environmentID ++ "-" ++ r.releaseID ++ "-") r.fenceID
  omega

theorem documentLines_printable {router rule entrypoint service resolver url : Bytes} (hrouter : Printable router)
    (hrule : Printable rule) (hentrypoint : Printable entrypoint) (hservice : Printable service)
    (hresolver : Printable resolver) (hurl : Printable url) :
    ∀ l ∈ documentLines router rule entrypoint service resolver url, Printable l.content := by
  have hcolon : Printable [colon] := .of_all (by decide)
  have hword (word : String) (h : (Bytes.ofString word).all (fun b => decide (0x20 ≤ b ∧ b ≤ 0x7e)) = true) :
      Printable (Bytes.ofString word ++ [colon]) := (Printable.of_all h).append hcolon
  have htext (word : String) (h : (Bytes.ofString word).all (fun b => decide (0x20 ≤ b ∧ b ≤ 0x7e)) = true) {q : Bytes}
      (hq : Printable q) : Printable (Bytes.ofString word ++ colon :: space :: q) :=
    (Printable.of_all h).append (.cons (by decide) (.cons (by decide) hq))
  have hitem {q : Bytes} (hq : Printable q) : Printable (hyphen :: space :: q) := .cons (by decide) (.cons (by decide) hq)
  simp only [documentLines, List.forall_mem_cons]
  exact ⟨hword "http" (by decide), hword "routers" (by decide), hrouter.append hcolon,
    htext "rule" (by decide) hrule, hword "entryPoints" (by decide), hitem hentrypoint,
    htext "service" (by decide) hservice, hword "tls" (by decide),
    htext "certResolver" (by decide) hresolver, hword "services" (by decide), hservice.append hcolon,
    hword "loadBalancer" (by decide), hword "servers" (by decide),
    hitem (htext "url" (by decide) hurl), nofun⟩

theorem documentLines_heads {router rule entrypoint service resolver url : Bytes} (hrouter : ∃ rest, router = quote :: rest)
    (hservice : ∃ rest, service = quote :: rest) : ∀ l ∈ documentLines router rule entrypoint service resolver url,
      ∃ b rest, l.content = b :: rest ∧ b ≠ space ∧ b ≠ hash := by
  obtain ⟨router, rfl⟩ := hrouter
  obtain ⟨service, rfl⟩ := hservice
  simp only [documentLines, List.forall_mem_cons]
  exact ⟨⟨0x68, _, rfl, by decide⟩, ⟨0x72, _, rfl, by decide⟩, ⟨quote, _, rfl, by decide⟩, ⟨0x72, _, rfl, by decide⟩,
    ⟨0x65, _, rfl, by decide⟩, ⟨hyphen, _, rfl, by decide⟩, ⟨0x73, _, rfl, by decide⟩, ⟨0x74, _, rfl, by decide⟩,
    ⟨0x63, _, rfl, by decide⟩, ⟨0x73, _, rfl, by decide⟩, ⟨quote, _, rfl, by decide⟩, ⟨0x6c, _, rfl, by decide⟩,
    ⟨0x73, _, rfl, by decide⟩, ⟨hyphen, _, rfl, by decide⟩, nofun⟩

-- No comment reaches beyond its line.
theorem layout_comments {r : EnvironmentRoute} (h : r.Valid) (rest : Bytes) :
    layout (documentComments r ++ rest) = layout rest ∧ (documentComments r).all allowed = true := by
  have hfirst : line "# Generated by autodeploy internal/runtime/traefik. Do not edit by hand;\n" = hash ::
      Bytes.ofString " Generated by autodeploy internal/runtime/traefik. Do not edit by hand;" ++ [newline] := by
    decide
  have hsecond : line "# this file is replaced atomically on every activation.\n" = hash ::
      Bytes.ofString " this file is replaced atomically on every activation." ++ [newline] := by decide
  have hfield (label : String) (text : String) : line ("#" ++ label ++ text ++ "\n") =
      hash :: Bytes.ofString (label ++ text) ++ [newline] := by
    have hhash : Bytes.ofString "#" = [hash] := by decide
    have hbreak : Bytes.ofString "\n" = [newline] := by decide
    simp only [line, Bytes.ofString_append, hhash, hbreak, List.append_assoc, List.cons_append, List.nil_append]
  have hlabel : "# environment: " = "#" ++ " environment: " := by decide
  have hlabel' : "# route_revision: " = "#" ++ " route_revision: " := by decide
  have hplain (text : String) (htext : Plain text) : Printable (Bytes.ofString text) := printable_of_plain htext
  have h1 := hplain " Generated by autodeploy internal/runtime/traefik. Do not edit by hand;" (plain_of_all (by decide))
  have h2 := hplain " this file is replaced atomically on every activation." (plain_of_all (by decide))
  have h3 := hplain (" environment: " ++ r.environmentID)
    ((plain_of_all (by decide)).append (plain_of_nameChars h.environment))
  have h4 := hplain (" route_revision: " ++ toString r.routeRevision)
    ((plain_of_all (by decide)).append (plain_of_nameChars fun c => nameChar_of_digit))
  rw [documentComments, hfirst, hsecond, hlabel, hlabel', hfield, hfield]
  constructor
  · simp only [List.append_assoc, List.cons_append, List.nil_append]
    rw [layout_comment h1.whole, layout_comment h2.whole, layout_comment h3.whole, layout_comment h4.whole]
  · simp only [List.all_append, List.all_cons, h1.allowed, h2.allowed, h3.allowed, h4.allowed]
    decide

-- Comments and lines whose quoted texts are read back.
theorem parse_document {r : EnvironmentRoute} (h : r.validate = .ok ()) {url : String}
    {qrouter qrule qentrypoint qservice qresolver qurl : Bytes} (hrouter : quoteYAMLString (routerName r) = .ok qrouter)
    (hrule : quoteYAMLString (ruleValue r.hostname) = .ok qrule)
    (hentrypoint : quoteYAMLString r.entrypointName = .ok qentrypoint)
    (hservice : quoteYAMLString (serviceName r) = .ok qservice)
    (hresolver : quoteYAMLString r.certResolverName = .ok qresolver) (hurl : quoteYAMLString url = .ok qurl)
    (hrouterLength : qrouter.length ≤ maxKey) (hserviceLength : qservice.length ≤ maxKey) :
    parse (documentComments r ++ (documentLines qrouter qrule qentrypoint qservice qresolver qurl).flatMap Line.write) =
      some (intended r url) := by
  have hprintable := documentLines_printable (quoteYAML_printable hrouter) (quoteYAML_printable hrule)
    (quoteYAML_printable hentrypoint) (quoteYAML_printable hservice) (quoteYAML_printable hresolver)
    (quoteYAML_printable hurl)
  have hheads : ∀ l ∈ documentLines qrouter qrule qentrypoint qservice qresolver qurl, _ :=
    documentLines_heads (Quoted.of hrouter).head (Quoted.of hservice).head
  have hlines : layout ((documentLines qrouter qrule qentrypoint qservice qresolver qurl).flatMap Line.write) = _ :=
    layout_write fun l hl => .of_printable (hprintable l hl) (hheads l hl)
  obtain ⟨hlayout, hallowed⟩ := layout_comments (EnvironmentRoute.Valid.of_validate h)
    ((documentLines qrouter qrule qentrypoint qservice qresolver qurl).flatMap Line.write)
  have hnode := node_documentLines (.of hrouter) (.of hrule) (.of hentrypoint) (.of hservice) (.of hresolver) (.of hurl)
    hrouterLength hserviceLength 40
  have hlength : 4 * (documentLines qrouter qrule qentrypoint qservice qresolver qurl).length = 40 + 16 := rfl
  rw [parse, List.all_append, hallowed, allowed_write hprintable, Bool.and_self, if_pos rfl, hlayout, hlines, hlength, hnode]
  rfl

theorem render_of_document {r : EnvironmentRoute} (h : r.validate = .ok ()) {url : String}
    (hurl : backendServerURL r = .ok url) {doc : Bytes}
    (hdocument : renderDocument r (routerName r) (serviceName r) url = .ok doc) : render r = .ok (doc, digest doc) := by
  simp only [render, h, hurl, hdocument, ok_bind]
  rfl

-- The document of a valid route is read as the structure it was written for.
theorem parse_render {r : EnvironmentRoute} (h : r.validate = .ok ()) :
    ∃ doc text url, backendServerURL r = .ok url ∧ render r = .ok (doc, text) ∧ parse doc = some (intended r url) := by
  have hvalid := EnvironmentRoute.Valid.of_validate h
  have hlabel : Plain "autodeploy-router-" := plain_of_all (by decide)
  have hroutername : Plain (routerName r) := hlabel.append (plain_of_nameChars hvalid.environment)
  have hrouter := quoteYAMLString_plain hroutername
  have hrule := quoteYAMLString_plain hvalid.plain_rule
  have hentrypoint := quoteYAMLString_plain (plain_of_nameChars hvalid.entrypoint)
  have hservice := quoteYAMLString_plain hvalid.plain_service
  have hresolver := quoteYAMLString_plain (plain_of_nameChars hvalid.resolver)
  have hurl := quoteYAMLString_plain hvalid.plain_backend
  have hdocument := renderDocument_lines hrouter hrule hentrypoint hservice hresolver hurl
  have hrouterLength := length_quoted hroutername hrouter
  have hserviceLength := length_quoted hvalid.plain_service hservice
  have hrouterBound := length_routerName h
  have hserviceBound := length_serviceName h
  refine ⟨_, _, _, hvalid.backend, render_of_document h hvalid.backend hdocument, parse_document h hrouter hrule hentrypoint hservice hresolver hurl ?_ ?_⟩
  · rw [hrouterLength, maxKey]
    omega
  · rw [hserviceLength, maxKey]
    omega

-- Quoting fails exactly on bytes outside of ASCII, and otherwise gives one line of printable characters that reads as
-- the text itself; and the document of every valid route is the one structure with the intended names and values.
theorem quoting_exact : (∀ s : Bytes,
      ((∃ e, quoteYAML s = .error e) ↔ ∃ b ∈ s, 0x80 ≤ b) ∧
      ∀ q, quoteYAML s = .ok q → (∀ b ∈ q, 0x20 ≤ b ∧ b ≤ 0x7e) ∧ doubleQuoted q = some s) ∧
    ∀ r : EnvironmentRoute, r.validate = .ok () →
      ∃ doc text url, backendServerURL r = .ok url ∧ render r = .ok (doc, text) ∧ parse doc = some (intended r url) := by
  refine ⟨fun s => ⟨quoteYAML_error_iff s, fun q hq => ?_⟩, fun r hr => parse_render hr⟩
  exact ⟨quoteYAML_printable hq, doubleQuoted_quoteYAML hq⟩

-- The route of the sample environment is valid, and its document is read back.
theorem quoting_exact_sampleRoute : sampleRoute.validate = .ok () ∧
    ∃ doc text url, backendServerURL sampleRoute = .ok url ∧ render sampleRoute = .ok (doc, text) ∧
      parse doc = some (intended sampleRoute url) := by
  have hvalid : sampleRoute.validate = .ok () := by decide +kernel
  exact ⟨hvalid, quoting_exact.2 sampleRoute hvalid⟩

end AutoDeploy.Traefik
