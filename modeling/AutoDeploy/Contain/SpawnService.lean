import AutoDeploy.Contain.SpawnFrame

namespace AutoDeploy.Contain

open Lib Lib.Frame

-- The limits are a duration in nanoseconds and a number of bytes.
structure Config where
  agentUID : Nat
  checkoutUID : Nat
  checkoutGID : Nat
  timeout : Nat
  maxOutput : Nat
deriving DecidableEq, Repr

-- The service's side: besides its descriptors, whether the kernel gives it a leaf and duplicates.
structure Machine extends Descriptors where
  git : Int
  createUnique : Bool
  dup : Int → Bool

def Machine.validWorkspace (m : Machine) (fd : Int) (uid gid : UInt32) : Bool :=
  (m.fstat fd).any fun st => st.kind == .directory && st.uid == uid && st.gid == gid && st.mode &&& 0o022 == 0

def Machine.validWritePipe (m : Machine) (fd : Int) : Bool :=
  (m.fstat fd).any (fun st => st.kind == .pipe) && m.validWriteFD fd

def Machine.validReadOnlyPipe (m : Machine) (fd : Int) : Bool :=
  (m.fstat fd).any (fun st => st.kind == .pipe) && m.validReadOnlyFD fd

def words (texts : List String) : List Bytes := texts.map Bytes.ofString

def remoteWords (remote : Bytes) : List Bytes := words ["remote", "add", "origin"] ++ [remote]

def fetchWords (commit : Bytes) : List Bytes := words ["fetch", "--no-tags", "--depth=1", "origin"] ++ [commit]

-- The arguments, and whether the operation fetches.
def serviceArgs (op : GitOperation) (arg remote : Bytes) : Option (List Bytes × Bool) :=
  if validSpawnOperation op arg remote (decide (op = gitFetchExact)) = false then none
  else if op = gitInit then some (words ["init", "--quiet"], false)
  else if op = gitRemoteAddOrigin then some (remoteWords remote, false)
  else if op = gitFetchExact then some (fetchWords arg, true)
  else if op = gitRevParseFetchHead then some (words ["rev-parse", "FETCH_HEAD^\x7bcommit\x7d"], false)
  else if op = gitRevParseHead then some (words ["rev-parse", "HEAD"], false)
  else if op = gitCheckoutFetchHead then some (words ["checkout", "--detach", "--force", "FETCH_HEAD"], false)
  else if op = gitLSTree then some (words ["ls-tree", "-r", "HEAD"], false)
  else if op = gitGrepLFS then
    some (words ["grep", "-I", "-l", "version https://git-lfs.github.com/spec/v1", "HEAD", "--"], false)
  else none

-- The process that is started in the leaf.
structure Command where
  childArgs : List Bytes
  askpass : Bool
  timeoutSeconds : UInt32
deriving DecidableEq, Repr

-- What follows the child's marker and its identity are the arguments of git.
def Command.gitArgs (c : Command) : List Bytes := c.childArgs.drop 3

-- A message that is not answered, or one that is answered with a code.
inductive Refusal where
  | silent
  | code (n : Nat)
deriving DecidableEq, Repr

def identityText (n : Nat) : Bytes := Bytes.ofString (toString n)

def spawn (cfg : Config) (m : Machine) (r : Decoded) (fds : List Int) : Except Refusal Command :=
  let ask := fds.length = 4
  if r.limits.timeoutSeconds = 0 ∨ UInt32.ofNat (cfg.timeout / 1000000000) < r.limits.timeoutSeconds ∨
      r.limits.maxOutput = 0 ∨ cfg.maxOutput < r.limits.maxOutput.toNat ∨
      validSpawnOperation r.operation r.arg r.remote (decide ask) = false then .error (.code 126)
  else
    let workspace := fds.getD 0 (-1)
    let stdout := fds.getD 1 (-1)
    let stderr := fds.getD 2 (-1)
    if m.validWorkspace workspace (UInt32.ofNat cfg.checkoutUID) (UInt32.ofNat cfg.checkoutGID) = false ∨
        m.validWritePipe stdout = false ∨ m.validWritePipe stderr = false then .error (.code 126)
    else
      match serviceArgs r.operation r.arg r.remote with
      | none => .error (.code 126)
      | some (args, fetch) =>
          -- a fetch has the pipe of its password, and nothing else has
          if ask ∧ (fetch = false ∨ m.validReadOnlyPipe (fds.getD 3 (-1)) = false) then .error (.code 126)
          else if ¬ ask ∧ fetch = true then .error (.code 126)
          else if m.createUnique = false then .error (.code 126)
          else if (m.dup m.git && m.dup workspace && m.dup stdout && m.dup stderr) = false then .error (.code 126)
          else if ask ∧ m.dup (fds.getD 3 (-1)) = false then .error (.code 126)
          else
            .ok ⟨[Bytes.ofString "--checkout-child", identityText cfg.checkoutUID, identityText cfg.checkoutGID] ++ args,
              decide ask, r.limits.timeoutSeconds⟩

-- What came over a connection: the caller, a datagram, and the descriptors beside it, where these can be read.
structure Received where
  peer : Option UInt32
  datagram : Bytes
  failed : Bool
  controlTruncated : Bool
  fds : Option (List Int)

-- A longer datagram is cut off, and said to be.
def handle (cfg : Config) (m : Machine) (received : Received) : Except Refusal Command :=
  if received.peer ≠ some (UInt32.ofNat cfg.agentUID) then .error .silent
  else if received.failed = true ∨ spawnFrameSize < received.datagram.length ∨ received.controlTruncated = true then
    .error .silent
  else
    match received.fds, decodeSpawnRequest (received.datagram.take spawnFrameSize) with
    | some fds, .ok r =>
        if fds.length ≠ r.fdCount ∨ uniqueFDs fds = false then .error .silent
        else if validSpawnOperation r.operation r.arg r.remote (decide (fds.length = 4)) = false then .error .silent
        else spawn cfg m r fds
    | _, _ => .error .silent

-- The commit and the remote in the arguments, byte by byte.
def hexByte (b : UInt8) : Prop := (0x30 ≤ b ∧ b ≤ 0x39) ∨ (0x61 ≤ b ∧ b ≤ 0x66)

def nameByte (b : UInt8) : Prop :=
  (0x61 ≤ b ∧ b ≤ 0x7a) ∨ (0x41 ≤ b ∧ b ≤ 0x5a) ∨ (0x30 ≤ b ∧ b ≤ 0x39) ∨ b = 0x2d ∨ b = 0x5f ∨ b = 0x2e

instance (b : UInt8) : Decidable (hexByte b) := inferInstanceAs (Decidable (_ ∨ _))

instance (b : UInt8) : Decidable (nameByte b) := inferInstanceAs (Decidable (_ ∨ _))

def IsCommit (commit : Bytes) : Prop := commit.length = 40 ∧ ∀ b ∈ commit, hexByte b

def IsName (name : Bytes) : Prop := name ≠ [] ∧ ∀ b ∈ name, nameByte b

def IsRemote (remote : Bytes) : Prop :=
  ∃ owner name, IsName owner ∧ IsName name ∧
    remote = Bytes.ofString "https://github.com/" ++ owner ++ Bytes.ofString "/" ++ name ++ Bytes.ofString ".git"

def fixedWords : List (List Bytes) :=
  [words ["init", "--quiet"], words ["rev-parse", "FETCH_HEAD^\x7bcommit\x7d"], words ["rev-parse", "HEAD"],
    words ["checkout", "--detach", "--force", "FETCH_HEAD"], words ["ls-tree", "-r", "HEAD"],
    words ["grep", "-I", "-l", "version https://git-lfs.github.com/spec/v1", "HEAD", "--"]]

-- The eight shapes.
def FixedShape (args : List Bytes) : Prop :=
  args ∈ fixedWords ∨ (∃ remote, IsRemote remote ∧ args = remoteWords remote) ∨
    ∃ commit, IsCommit commit ∧ args = fetchWords commit

-- The remote of a frame, where the frame has one: with its scheme in lower case and without a question mark at the end.
def remoteField (frame : Bytes) : Bytes := slice frame (16 + number (slice frame 12 2)) (number (slice frame 14 2))

def PlainRemote (remote : Bytes) : Prop :=
  remote = [] ∨ (Bytes.ofString "https:" <+: remote ∧ remote.getLast? ≠ some Url.question)

section

variable {s arg remote : Bytes} {op : GitOperation}

theorem toNat_byteChar {b : UInt8} (h : b < 0x80) : (Unicode.byteChar b).toNat = b.toNat := by
  have hnat : b.toNat < 0x80 := h
  exact Utf8.toNat_ofNat (.inl (by omega))

-- Between two ASCII characters are the bytes between theirs.
theorem between_byteChar {b : UInt8} (h : b < 0x80) {low high : Char} :
    (decide (low ≤ Unicode.byteChar b) && decide (Unicode.byteChar b ≤ high)) = true ↔
      low.toNat ≤ b.toNat ∧ b.toNat ≤ high.toNat := by
  rw [Bool.and_eq_true, decide_eq_true_eq, decide_eq_true_eq, ← toNat_byteChar h]
  rfl

theorem nameByte_of_char {b : UInt8} (h : b < 0x80) (hc : isSegmentChar (Unicode.byteChar b) = true) : nameByte b := by
  have heq : ∀ c : Char, Unicode.byteChar b = c → b.toNat = c.toNat := fun c hc => by rw [← hc, toNat_byteChar h]
  simp only [isSegmentChar, Bool.or_eq_true, between_byteChar h, beq_iff_eq] at hc
  simp only [nameByte, UInt8.le_iff_toNat_le, ← UInt8.toNat_inj]
  rcases hc with ((((hc | hc) | hc) | hc) | hc) | hc
  · exact .inl hc
  · exact .inr (.inl hc)
  · exact .inr (.inr (.inl hc))
  · exact .inr (.inr (.inr (.inl (heq _ hc))))
  · exact .inr (.inr (.inr (.inr (.inl (heq _ hc)))))
  · exact .inr (.inr (.inr (.inr (.inr (heq _ hc)))))

theorem isAscii_of_le {c high : Char} (h : c ≤ high) (hhigh : high.toNat < 0x80) : Unicode.isAscii c = true :=
  decide_eq_true (Nat.lt_of_le_of_lt h hhigh)

theorem isName_of_valid (h : validGitHubSegment s = true) : IsName s := by
  simp only [validGitHubSegment, Bool.and_eq_true, decide_eq_true_eq] at h
  obtain ⟨⟨hne, -⟩, hchars⟩ := h
  have hascii : ∀ c, isSegmentChar c = true → Unicode.isAscii c = true := by
    intro c hc
    simp only [isSegmentChar, Bool.or_eq_true, Bool.and_eq_true, decide_eq_true_eq, beq_iff_eq] at hc
    rcases hc with ((((hc | hc) | hc) | rfl) | rfl) | rfl
    · exact isAscii_of_le hc.2 (by decide)
    · exact isAscii_of_le hc.2 (by decide)
    · exact isAscii_of_le hc.2 (by decide)
    · decide
    · decide
    · decide
  refine ⟨fun hnil => hne (by rw [hnil]; rfl), fun b hb => ?_⟩
  obtain ⟨hb, hc⟩ := Unicode.text_all_of_ascii hascii hchars b hb
  exact nameByte_of_char hb hc

theorem isCommit_of_valid (hlength : s.length = 40) (h : isLowerHex s = true) : IsCommit s := by
  have hascii : ∀ c, isLowerHexChar c = true → Unicode.isAscii c = true := by
    intro c hc
    simp only [isLowerHexChar, Bool.or_eq_true, Bool.and_eq_true, decide_eq_true_eq] at hc
    rcases hc with hc | hc
    · exact isAscii_of_le hc.2 (by decide)
    · exact isAscii_of_le hc.2 (by decide)
  refine ⟨hlength, fun b hb => ?_⟩
  obtain ⟨hb, hc⟩ := Unicode.text_all_of_ascii hascii h b hb
  simp only [isLowerHexChar, Bool.or_eq_true, between_byteChar hb] at hc
  simp only [hexByte, UInt8.le_iff_toNat_le]
  exact hc

theorem shouldEscape_of_nameByte {b : UInt8} (h : nameByte b) : Url.shouldEscape b = false := by
  simp only [nameByte] at h
  rcases h with h | h | h | rfl | rfl | rfl
  · simp [Url.shouldEscape, Url.isLetter, h]
  · simp [Url.shouldEscape, Url.isLetter, h]
  · simp [Url.shouldEscape, Url.isDigit, h]
  · rfl
  · rfl
  · rfl

theorem eq_of_trimSlash {path : Bytes} (h : path = [] ∨ path.head? = some Url.slash) (hne : trimSlash path ≠ []) :
    path = Url.slash :: trimSlash path := by
  rcases h with rfl | h
  · exact absurd rfl hne
  · rw [trimSlash, if_pos h, List.cons_head?_tail h]

theorem mem_of_trimSlash {path : Bytes} {b : UInt8} (h : b ∈ path) : b = Url.slash ∨ b ∈ trimSlash path := by
  rw [trimSlash]
  split
  · rename_i hhead
    rw [← List.cons_head?_tail hhead] at h
    exact List.mem_cons.1 h
  · exact .inr h

-- All that the checks of a remote leave open.
theorem validGitHubURL_cases (h : validGitHubURL s = true) :
    ∃ scheme owner name tail, scheme.map Url.lower = https ∧ IsName owner ∧ IsName name ∧
      (tail = [] ∨ tail = [Url.question]) ∧ s = scheme ++ Bytes.ofString "://github.com/" ++ owner ++
        Bytes.ofString "/" ++ name ++ Bytes.ofString ".git" ++ tail := by
  rw [validGitHubURL] at h
  split at h
  · cases h
  rename_i u hparse
  split at h
  · cases h
  rename_i hchecks
  simp only [not_or, not_not] at hchecks
  obtain ⟨hscheme, hhost, huser, hquery, hescaped⟩ := hchecks
  split at h
  · rename_i owner last hparts
    simp only [Bool.and_eq_true, List.isSuffixOf_iff_suffix] at h
    obtain ⟨⟨⟨name, hlast⟩, howner⟩, hname⟩ := h
    have hbase : last.take (last.length - dotGit.length) = name := by
      rw [← hlast, List.length_append, Nat.add_sub_cancel, List.take_left]
    rw [hbase] at hname
    have howner' := isName_of_valid howner
    have hname' := isName_of_valid hname
    have hpath : trimSlash u.path = owner ++ Url.slash :: last := by
      have hjoin : [Url.slash].intercalate ((trimSlash u.path).splitOn Url.slash) = trimSlash u.path :=
        List.intercalate_splitOn Url.slash
      rw [hparts] at hjoin
      simpa using hjoin.symm
    obtain ⟨scheme, authority, p, hraw, hlower, hauthority, hp, hread, hrawPath⟩ :=
      Url.parseRequestURI_host hparse (by rw [hhost]; decide) hquery
    have hplain : ∀ b ∈ u.path, Url.shouldEscape b = false := by
      intro b hb
      have hsuffix : ∀ b ∈ dotGit, Url.shouldEscape b = false := by decide +kernel
      rcases mem_of_trimSlash hb with rfl | hb
      · rfl
      rw [hpath, ← hlast] at hb
      rcases List.mem_append.1 hb with hb | hb
      · exact shouldEscape_of_nameByte (howner'.2 b hb)
      rcases List.mem_cons.1 hb with rfl | hb
      · rfl
      rcases List.mem_append.1 hb with hb | hb
      · exact shouldEscape_of_nameByte (hname'.2 b hb)
      · exact hsuffix b hb
    obtain rfl : p = u.path := Url.eq_of_escapedPath hread hrawPath hplain hescaped
    obtain rfl : authority = gitHubHost := by
      rw [huser, hhost] at hauthority
      exact Url.eq_of_parseAuthority hauthority (by decide +kernel) (by decide +kernel)
    refine ⟨scheme, owner, name, if u.forceQuery then [Url.question] else [], ?_, howner', hname', ?_, ?_⟩
    · rw [← hlower, hscheme]
    · cases u.forceQuery
      · exact .inl rfl
      · exact .inr rfl
    · have hfront : Bytes.ofString "://github.com/" = [Url.colon, Url.slash, Url.slash] ++ gitHubHost ++ [Url.slash] := by
        decide
      have hslash : Bytes.ofString "/" = [Url.slash] := by decide
      rw [hraw, eq_of_trimSlash hp (by rw [hpath]; simp), hpath, ← hlast, hfront, hslash]
      simp only [List.append_assoc, List.cons_append, List.nil_append]
      rfl
  · cases h

-- Of these, the fixed form is the one with nothing open.
theorem isRemote_iff (h : validGitHubURL s = true) : IsRemote s ↔ PlainRemote s := by
  constructor
  · rintro ⟨owner, name, -, -, rfl⟩
    have hfront : Bytes.ofString "https://github.com/" = Bytes.ofString "https:" ++ Bytes.ofString "//github.com/" := by
      decide
    refine .inr ⟨?_, ?_⟩
    · rw [hfront, List.append_assoc, List.append_assoc, List.append_assoc, List.append_assoc]
      exact List.prefix_append _ _
    · rw [List.getLast?_append_of_ne_nil _ (by decide)]
      decide
  · intro hplain
    obtain ⟨scheme, owner, name, tail, hscheme, howner, hname, htail, rfl⟩ := validGitHubURL_cases h
    have hfront : Bytes.ofString "https://github.com/" = https ++ Bytes.ofString "://github.com/" := by decide
    have hcolon : Bytes.ofString "https:" = https ++ [Url.colon] := by decide
    rcases hplain with hnil | ⟨⟨rest, hrest⟩, hlast⟩
    · have hne : Bytes.ofString "/" ≠ [] := by decide
      simp [hne] at hnil
    · obtain rfl : https = scheme := by
        rw [hcolon] at hrest
        simp only [List.append_assoc] at hrest
        refine (List.append_inj hrest ?_).1
        rw [← hscheme, List.length_map]
      obtain rfl : tail = [] := by
        rcases htail with rfl | rfl
        · rfl
        · exact absurd (by simp) hlast
      refine ⟨owner, name, howner, hname, ?_⟩
      rw [hfront, List.append_nil]

-- The eight operations, with what is open in each.
theorem serviceArgs_cases {args : List Bytes} {fetch : Bool} (h : serviceArgs op arg remote = some (args, fetch)) :
    (args ∈ fixedWords ∧ remote = []) ∨ (args = remoteWords remote ∧ validGitHubURL remote = true) ∨
      (args = fetchWords arg ∧ IsCommit arg ∧ remote = []) := by
  rw [serviceArgs] at h
  split at h
  · cases h
  rename_i hvalid
  rw [Bool.not_eq_false, validSpawnOperation] at hvalid
  split at hvalid
  · cases hvalid
  split at hvalid
  · rename_i hop
    simp only [Bool.and_eq_true, List.isEmpty_iff] at hvalid
    refine .inl ⟨?_, hvalid.1.2⟩
    simp only [List.mem_cons, List.not_mem_nil, or_false] at hop
    rcases hop with rfl | rfl | rfl | rfl | rfl | rfl
    all_goals
      cases h
      simp only [fixedWords, List.mem_cons, true_or, or_true]
  split at hvalid
  · rename_i hop
    subst hop
    simp only [Bool.and_eq_true] at hvalid
    cases h
    exact .inr (.inl ⟨rfl, hvalid.1.2⟩)
  split at hvalid
  · rename_i hop
    subst hop
    simp only [Bool.and_eq_true, List.isEmpty_iff, decide_eq_true_eq] at hvalid
    cases h
    exact .inr (.inr ⟨rfl, isCommit_of_valid hvalid.1.1.1 hvalid.1.1.2, hvalid.1.2⟩)
  · cases hvalid

theorem fixedShape_iff {args : List Bytes} {fetch : Bool} (h : serviceArgs op arg remote = some (args, fetch)) :
    FixedShape args ↔ PlainRemote remote := by
  rcases serviceArgs_cases h with ⟨hfixed, rfl⟩ | ⟨rfl, hvalid⟩ | ⟨rfl, hcommit, rfl⟩
  · exact ⟨fun _ => .inl rfl, fun _ => .inl hfixed⟩
  · rw [← isRemote_iff hvalid]
    refine ⟨fun hshape => ?_, fun hremote => .inr (.inl ⟨remote, hremote, rfl⟩)⟩
    -- no other shape starts with the same word
    rcases hshape with hshape | ⟨remote', hremote, heq⟩ | ⟨commit, -, heq⟩
    · simp [fixedWords, remoteWords, words, Bytes.ofString_injective.eq_iff] at hshape
    · have hsame := List.append_cancel_left heq
      rw [List.singleton_inj.1 hsame]
      exact hremote
    · have hlength := congrArg List.length heq
      simp [remoteWords, fetchWords, words] at hlength
  · exact ⟨fun _ => .inl rfl, fun _ => .inr (.inr ⟨arg, hcommit, rfl⟩)⟩

theorem spawn_inv {cfg : Config} {m : Machine} {r : Decoded} {fds : List Int} {command : Command}
    (h : spawn cfg m r fds = .ok command) :
    ∃ args fetch, serviceArgs r.operation r.arg r.remote = some (args, fetch) ∧ command.gitArgs = args := by
  simp only [spawn] at h
  split at h
  · cases h
  split at h
  · cases h
  split at h
  · cases h
  · rename_i args fetch hargs
    iterate 5
      split at h
      · cases h
    cases h
    exact ⟨args, fetch, hargs, rfl⟩

theorem decode_remote {frame : Bytes} {r : Decoded} (h : decodeSpawnRequest frame = .ok r) : r.remote = remoteField frame := by
  simp only [decodeSpawnRequest] at h
  split at h
  · cases h
  split at h
  · cases h
  split at h
  · cases h
  · cases h
    rfl

theorem handle_inv {cfg : Config} {m : Machine} {received : Received} {command : Command}
    (h : handle cfg m received = .ok command) :
    ∃ r fds, decodeSpawnRequest received.datagram = .ok r ∧ spawn cfg m r fds = .ok command := by
  rw [handle] at h
  split at h
  · cases h
  split at h
  · cases h
  rename_i hreceived
  have hwhole : received.datagram.take spawnFrameSize = received.datagram := by
    refine List.take_of_length_le (Nat.le_of_not_lt fun hlong => hreceived ?_)
    exact .inr (.inl hlong)
  split at h
  · rename_i fds r hfds hdecode
    split at h
    · cases h
    split at h
    · cases h
    · rw [hwhole] at hdecode
      exact ⟨r, fds, hdecode, h⟩
  · cases h

-- Requests are read as they were sent, and what is started for any datagram has one of the eight shapes, unless its
-- remote has a scheme in upper case or a question mark at its end.
theorem spawn_requests_exact (c : SpawnClient) (cfg : Config) :
    (∀ (d : Descriptors) (connect : Except SpawnError Unit) (r : SpawnRequest) (m : Message),
      c.run d connect r = .ok m →
        decodeSpawnRequest m.frame = .ok ⟨r.operation, r.arg, r.remoteURL, r.limits, m.fds.length⟩) ∧
      ∀ (m : Machine) (received : Received) (command : Command),
        handle cfg m received = .ok command →
          (FixedShape command.gitArgs ↔ PlainRemote (remoteField received.datagram)) := by
  refine ⟨fun d connect r m h => SpawnClient.decode_run h, ?_⟩
  intro m received command h
  obtain ⟨r, fds, hdecode, hspawn⟩ := handle_inv h
  obtain ⟨args, fetch, hargs, hgit⟩ := spawn_inv hspawn
  rw [hgit, ← decode_remote hdecode]
  exact fixedShape_iff hargs

end

def sampleConfig : Config := ⟨1000, 1001, 1001, 120000000000, 1048576⟩

def sampleMachine : Machine where
  fstat := fun fd => if fd = 10 then some ⟨.directory, 1001, 1001, 0o700⟩ else some ⟨.pipe, 1000, 1000, 0o600⟩
  fdMode := fun fd => if fd = 10 ∨ 12 < fd then some .readOnly else some .writeOnly
  git := 5
  createUnique := true
  dup := fun _ => true

def sampleRequest (remote : String) : SpawnRequest :=
  ⟨gitRemoteAddOrigin, [], Bytes.ofString remote, 10, 11, 12, 13, 14, -1, true, true, ⟨60, 65536⟩⟩

def sampleReceived (remote : String) : Received :=
  ⟨some 1000, encodeSpawnRequest (sampleRequest remote), false, false, some [10, 11, 12]⟩

def sampleCommand (remote : String) : Command :=
  ⟨[Bytes.ofString "--checkout-child", Bytes.ofString "1001", Bytes.ofString "1001"] ++ remoteWords (Bytes.ofString remote),
    false, 60⟩

theorem spawn_requests_exact_sample :
    decodeSpawnRequest (encodeSpawnRequest (sampleRequest "https://github.com/o/n.git")) =
        .ok ⟨gitRemoteAddOrigin, [], Bytes.ofString "https://github.com/o/n.git", ⟨60, 65536⟩, 3⟩ ∧
      FixedShape (sampleCommand "https://github.com/o/n.git").gitArgs :=
  ⟨(spawn_requests_exact ⟨1048576⟩ sampleConfig).1 sampleMachine.toDescriptors (.ok ())
      (sampleRequest "https://github.com/o/n.git")
      ⟨encodeSpawnRequest (sampleRequest "https://github.com/o/n.git"), [10, 11, 12]⟩ (by rfl),
    ((spawn_requests_exact ⟨1048576⟩ sampleConfig).2 sampleMachine (sampleReceived "https://github.com/o/n.git")
      (sampleCommand "https://github.com/o/n.git") (by decide +kernel)).2 (.inr ⟨by decide +kernel, by decide +kernel⟩)⟩

-- A scheme in upper case reaches git, and so does a question mark with nothing behind it.
theorem loose_remotes_reach_git :
    (handle sampleConfig sampleMachine (sampleReceived "HTTPS://github.com/o/n.git") =
        .ok (sampleCommand "HTTPS://github.com/o/n.git") ∧
      ¬ FixedShape (sampleCommand "HTTPS://github.com/o/n.git").gitArgs) ∧
    handle sampleConfig sampleMachine (sampleReceived "https://github.com/o/n.git?") =
        .ok (sampleCommand "https://github.com/o/n.git?") ∧
      ¬ FixedShape (sampleCommand "https://github.com/o/n.git?").gitArgs := by
  have hargs : ∀ remote : String, (sampleCommand remote).gitArgs = remoteWords (Bytes.ofString remote) := fun _ => rfl
  have hupper : serviceArgs gitRemoteAddOrigin [] (Bytes.ofString "HTTPS://github.com/o/n.git") =
      some (remoteWords (Bytes.ofString "HTTPS://github.com/o/n.git"), false) := by decide
  have hquestion : serviceArgs gitRemoteAddOrigin [] (Bytes.ofString "https://github.com/o/n.git?") =
      some (remoteWords (Bytes.ofString "https://github.com/o/n.git?"), false) := by decide
  refine ⟨⟨by decide +kernel, ?_⟩, by decide +kernel, ?_⟩
  · rw [hargs, fixedShape_iff hupper]
    rintro (hnil | ⟨hscheme, -⟩)
    · revert hnil
      decide
    · revert hscheme
      decide
  · rw [hargs, fixedShape_iff hquestion]
    rintro (hnil | ⟨-, hlast⟩)
    · revert hnil
      decide
    · revert hlast
      decide

end AutoDeploy.Contain
