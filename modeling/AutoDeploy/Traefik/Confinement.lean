import AutoDeploy.Traefik.Files

namespace AutoDeploy.Traefik

open Lib Lib.Result Paths Text

-- A direct child of the route directory that has the route file name of a valid environment, or a temporary name
-- of one.
def IsRouteFile (host : Host) (p : Path) : Prop :=
  ∃ e : String, opaqueName 127 e = true ∧
    (p = (clean host.dir).child (routeFile (Bytes.ofString e)) ∨
      ∃ suffix, p = (clean host.dir).child (tempFile (Bytes.ofString e) suffix))

-- In every run, whatever else is served and whatever the files are, the request's calls are about such paths only.
def Confined (host : Host) (req : Request) : Prop :=
  ∀ requests fs turns t a, requests t = req →
    ∀ p ∈ touched host req a (((server host requests).run (start fs) turns).stage t), IsRouteFile host p

-- The parts of the name, without its extension, lead back to the directory and there to the name of a valid
-- environment, or they lead to a path with a zero byte.
def Detour (dir id : Bytes) : Prop :=
  ∃ front last q, segments (Bytes.ofString routeFilePrefix ++ id) = front ++ [last] ∧ Leads (clean dir) front q ∧
    (Path.refused (q.child last) = true ∨
      q = clean dir ∧ ∃ e : String, opaqueName 127 e = true ∧ last = Bytes.ofString routeFilePrefix ++ Bytes.ofString e)

-- The path ends in the last part with the extension, which is never a dot or two.
theorem walk_last {p : Path} {front : List Bytes} {last : Bytes} :
    p.walk (front ++ [last ++ Bytes.ofString routeFileExtension]) =
      (p.walk front).child (last ++ Bytes.ofString routeFileExtension) := by
  have hextension : Bytes.ofString routeFileExtension = [46, 121, 109, 108] := by decide
  rw [walk_append, hextension]
  refine enter_of_ordinary (by simp) ?_ ?_
  · intro h
    have hlength := congrArg List.length h
    rw [List.length_append] at hlength
    simp [dot] at hlength
  · intro h
    have hlength := congrArg List.length h
    rw [List.length_append] at hlength
    simp [dots] at hlength

theorem slash_notMem_extension : slash ∉ Bytes.ofString routeFileExtension := by decide

theorem path_eq {dir id : Bytes} (hdir : dir ≠ []) {front : List Bytes} {last : Bytes}
    (h : segments (Bytes.ofString routeFilePrefix ++ id) = front ++ [last]) :
    join dir (routeFile id) = ((clean dir).walk front).child (last ++ Bytes.ofString routeFileExtension) := by
  rw [join_eq_walk hdir, routeFile, segments_behind slash_notMem_extension h, walk_last]

theorem exists_last (s : Bytes) : ∃ front last, segments s = front ++ [last] := by
  refine ⟨(segments s).dropLast, (segments s).getLast (segments_ne_nil s), ?_⟩
  exact (List.dropLast_append_getLast (segments_ne_nil s)).symm

-- The extension has no zero byte of its own.
theorem refused_child_extension (q : Path) (last : Bytes) :
    Path.refused (q.child (last ++ Bytes.ofString routeFileExtension)) = Path.refused (q.child last) := by
  have hextension : (Bytes.ofString routeFileExtension).contains 0 = false := by decide
  simp only [Path.refused, Path.child, List.any_append, List.any_cons, List.any_nil, Bool.or_false]
  congr 1
  simp only [List.contains_eq_mem, List.mem_append] at *
  simp [hextension]

-- The environment of a route that is rendered is valid.
theorem valid_of_render {r : EnvironmentRoute} {doc : Bytes} {text : String} (h : render r = .ok (doc, text)) :
    r.validate = .ok () := by
  simp only [render, bind_eq_ok] at h
  obtain ⟨_, hvalid, -⟩ := h
  exact hvalid

-- What a request has behind it once it works on files.
structure Begun (host : Host) (req : Request) : Prop where
  nonempty : host.dir ≠ []
  named : 0 ∉ host.dir
  valid : ∀ r, req = .write r → r.validate = .ok ()

namespace Stage

-- Past the check of the directory and of the route, and not given up.
def admitted : Stage → Bool
  | .finished (.wrote _) => true
  | .verify | .finished _ | .crashed _ _ => false
  | _ => true

-- A temporary file belongs to the write of a valid route and has one of its names.
structure Sound (host : Host) (req : Request) (s : Stage) : Prop where
  begun : s.admitted = true → Begun host req
  named : ∀ p, s.temp = some p → ∃ r suffix, req = .write r ∧ Begun host req ∧ p = req.tempPath host suffix
  creating : ∀ attempts previous, s = .create attempts previous → ∃ r, req = .write r
  accepted : s = .read ∨ s = .unlink → Path.refused (req.path host) = false
  removing : s = .unlink → ∃ id, req = .remove id

theorem Sound.idle {host : Host} {req : Request} {s : Stage} (hadmitted : s.admitted = false) (htemp : s.temp = none) :
    s.Sound host req where
  begun h := by rw [hadmitted] at h; cases h
  named p h := by rw [htemp] at h; cases h
  creating attempts previous h := by rw [h] at hadmitted; cases hadmitted
  accepted h := by rcases h with rfl | rfl <;> cases hadmitted
  removing h := by rw [h] at hadmitted; cases hadmitted

end Stage

section

variable {host : Host} {req : Request} {fs : Files} {a : Reply}

theorem fail_sound (error : FileError) (renamed : Bool) : (Stage.fail error renamed).Sound host req :=
  .idle rfl rfl

theorem Stage.Sound.crash {s : Stage} (h : s.Sound host req) : s.crash.Sound host req := by
  cases s with
  | finished result => exact h
  | crashed renamed leftover => exact h
  | _ =>
      refine ⟨fun hadmitted => by (cases hadmitted), fun p hp => h.named p hp, fun _ _ hcreate => by (cases hcreate), ?_,
        fun hunlink => by (cases hunlink)⟩
      rintro (hread | hunlink)
      · cases hread
      · cases hunlink

-- A stage with nothing to show but that the request has begun.
theorem Stage.Sound.plain {s : Stage} (hbegun : Begun host req) (htemp : s.temp = none)
    (hcreate : ∀ attempts previous, s ≠ .create attempts previous) (hread : s ≠ .read) (hunlink : s ≠ .unlink) :
    s.Sound host req where
  begun _ := hbegun
  named p h := by rw [htemp] at h; cases h
  creating attempts previous h := absurd h (hcreate attempts previous)
  accepted h := h.elim (fun h => absurd h hread) fun h => absurd h hunlink
  removing h := absurd h hunlink

-- A stage that holds on to a temporary file of a write.
theorem Stage.Sound.holding {s : Stage} {r : EnvironmentRoute} {suffix : Bytes} (hreq : req = .write r)
    (hbegun : Begun host req) (htemp : s.temp = some (req.tempPath host suffix))
    (hcreate : ∀ attempts previous, s ≠ .create attempts previous) (hread : s ≠ .read) (hunlink : s ≠ .unlink) :
    s.Sound host req where
  begun _ := hbegun
  named p h := by
    rw [htemp] at h
    exact ⟨r, suffix, hreq, hbegun, (Option.some.inj h).symm⟩
  creating attempts previous h := absurd h (hcreate attempts previous)
  accepted h := h.elim (fun h => absurd h hread) fun h => absurd h hunlink
  removing h := absurd h hunlink

theorem verify_sound : (afterVerify host req a).Sound host req := by
  unfold afterVerify
  split
  · exact fail_sound _ _
  rename_i hverify
  have hdir : ¬ (host.dir = [] ∨ 0 ∈ host.dir) := by
    intro hbad
    unfold verifyDirectory at hverify
    rw [if_pos (hbad.imp_right .inl)] at hverify
    cases hverify
  obtain ⟨hnonempty, hnamed⟩ := not_or.1 hdir
  split
  · rename_i r
    split
    · exact fail_sound _ _
    · rename_i doc hrender
      obtain ⟨doc, text⟩ := doc
      refine .plain ⟨hnonempty, hnamed, fun r' hr => ?_⟩ rfl (by simp) (by simp) (by simp)
      obtain rfl := Request.write.inj hr
      exact valid_of_render hrender
  · rename_i hnot
    exact .plain ⟨hnonempty, hnamed, fun r hr => absurd hr (hnot r)⟩ rfl (by simp) (by simp) (by simp)

theorem stat_sound (hbegun : Begun host req) : (afterStat host req fs a).Sound host req := by
  unfold afterStat
  split
  · exact fail_sound _ _
  rename_i hnot
  have haccepted : Path.refused (req.path host) = false := by
    simpa using (not_or.1 hnot).1
  split
  · rename_i r _
    exact ⟨fun _ => hbegun, fun p h => by (cases h), fun _ _ _ => ⟨_, rfl⟩,
      fun h => by (rcases h with h | h <;> cases h), fun h => by (cases h)⟩
  · exact .idle rfl rfl
  · exact .idle rfl rfl
  · exact fail_sound _ _
  · exact fail_sound _ _
  · exact ⟨fun _ => hbegun, fun p h => by (cases h), fun _ _ h => by (cases h), fun _ => haccepted, fun _ => ⟨_, rfl⟩⟩
  · exact ⟨fun _ => hbegun, fun p h => by (cases h), fun _ _ h => by (cases h), fun _ => haccepted,
      fun h => by (cases h)⟩

theorem read_sound (hbegun : Begun host req) : (afterRead host req fs a).Sound host req := by
  unfold afterRead
  split
  · exact fail_sound _ _
  split
  · exact fail_sound _ _
  · exact fail_sound _ _
  · exact fail_sound _ _
  · split
    · exact fail_sound _ _
    · split
      · split
        · exact .plain hbegun rfl (by simp) (by simp) (by simp)
        · exact ⟨fun _ => hbegun, fun p h => by (cases h), fun _ _ _ => ⟨_, rfl⟩,
            fun h => by (rcases h with h | h <;> cases h), fun h => by (cases h)⟩
      · exact .idle rfl rfl

theorem create_sound {attempts : Nat} {previous : Option Bytes} {r : EnvironmentRoute} (hreq : req = .write r)
    (hbegun : Begun host req) : (tryCreate host req fs a attempts previous).2.Sound host req := by
  unfold tryCreate
  split
  · exact fail_sound _ _
  · exact fail_sound _ _
  · split
    · exact fail_sound _ _
    · split
      · exact ⟨fun _ => hbegun, fun p h => by (cases h), fun _ _ _ => ⟨r, hreq⟩,
          fun h => by (rcases h with h | h <;> cases h), fun h => by (cases h)⟩
      · exact .holding hreq hbegun rfl (by simp) (by simp) (by simp)

theorem next_sound {s : Stage} (h : s.Sound host req) : (next host req fs a s).2.Sound host req := by
  unfold next
  split
  · exact h.crash
  cases s with
  | verify => exact verify_sound
  | stat => exact stat_sound (h.begun rfl)
  | read => exact read_sound (h.begun rfl)
  | create attempts previous =>
      obtain ⟨r, hreq⟩ := h.creating attempts previous rfl
      exact create_sound hreq (h.begun rfl)
  | write temp previous =>
      obtain ⟨r, suffix, hreq, hbegun, rfl⟩ := h.named temp rfl
      dsimp only
      split
      · exact .holding hreq hbegun rfl (by simp) (by simp) (by simp)
      · exact .holding hreq hbegun rfl (by simp) (by simp) (by simp)
  | sync temp previous =>
      obtain ⟨r, suffix, hreq, hbegun, rfl⟩ := h.named temp rfl
      dsimp only
      split
      · exact .holding hreq hbegun rfl (by simp) (by simp) (by simp)
      · exact .holding hreq hbegun rfl (by simp) (by simp) (by simp)
  | close temp previous =>
      obtain ⟨r, suffix, hreq, hbegun, rfl⟩ := h.named temp rfl
      dsimp only
      split
      · exact .holding hreq hbegun rfl (by simp) (by simp) (by simp)
      · exact .holding hreq hbegun rfl (by simp) (by simp) (by simp)
  | rename temp previous =>
      obtain ⟨r, suffix, hreq, hbegun, rfl⟩ := h.named temp rfl
      dsimp only
      split
      · exact .holding hreq hbegun rfl (by simp) (by simp) (by simp)
      · exact .plain hbegun rfl (by simp) (by simp) (by simp)
  | openDir previous =>
      dsimp only
      split
      · exact fail_sound _ _
      · exact .plain (h.begun rfl) rfl (by simp) (by simp) (by simp)
  | syncDir previous =>
      dsimp only
      split
      · exact fail_sound _ _
      · exact .plain (h.begun rfl) rfl (by simp) (by simp) (by simp)
  | cleanup temp error =>
      obtain ⟨r, suffix, hreq, hbegun, rfl⟩ := h.named temp rfl
      dsimp only
      split
      · exact .holding hreq hbegun rfl (by simp) (by simp) (by simp)
      · exact .idle rfl rfl
  | unlink =>
      dsimp only
      split
      · exact fail_sound _ _
      · exact .idle rfl rfl
  | finished result => exact h
  | crashed renamed leftover => exact h

end

theorem run_sound (host : Host) (requests : Nat → Request) (fs : Files) (turns : List (Nat × Reply)) (t : Nat) :
    (((server host requests).run (start fs) turns).stage t).Sound host (requests t) := by
  have hinvariant : Threads.Asserts (fun _ t s => Stage.Sound host (requests t) s)
      ((server host requests).run (start fs) turns) := by
    refine Threads.run_invariant (I := Threads.Asserts fun _ t s => Stage.Sound host (requests t) s) ?_
      (Threads.allows_true turns) ?_
    · intro c turn hc _
      exact hc.step (fun u l _ hu => hu) (next_sound (hc turn.1))
    · intro t
      exact .idle rfl rfl
  exact hinvariant t

-- A character that no identifier has is not among the bytes of one.
theorem notMem_of_valid {e : String} (he : opaqueName 127 e = true) {b : UInt8}
    (hb : nameChar (Char.ofNat b.toNat) = false) : b ∉ Bytes.ofString e := by
  intro hmem
  have hplain (c : Char) (hc : c ∈ e.toList) : c.toNat < 0x80 := by
    have h := plainChar_of_nameChar (opaqueName_chars he hc)
    simp only [plainChar, Bool.and_eq_true, decide_eq_true_eq] at h
    have hhigh : c.toNat ≤ 0x7e := h.1.1.2
    omega
  obtain ⟨c, hc, hvalue⟩ := Utf8.mem_ofString_ascii hplain hmem
  have hchar : c = Char.ofNat b.toNat := by rw [← hvalue, Char.ofNat_toNat]
  rw [← hchar, opaqueName_chars he hc] at hb
  cases hb

theorem slash_notMem_valid {e : String} (he : opaqueName 127 e = true) : slash ∉ Bytes.ofString e :=
  notMem_of_valid he (by decide)

theorem slash_notMem_routeFile {e : String} (he : opaqueName 127 e = true) : slash ∉ routeFile (Bytes.ofString e) := by
  have hstart : slash ∉ Bytes.ofString routeFilePrefix := by decide
  simp only [routeFile, List.mem_append, not_or]
  exact ⟨⟨hstart, slash_notMem_valid he⟩, slash_notMem_extension⟩

theorem slash_notMem_hex (suffix : Bytes) : slash ∉ Bytes.ofString (String.ofList (Bytes.toHex suffix)) := by
  have hdigit : ∀ n < 16, (Bytes.hexDigit n).toNat < 0x80 ∧ (Bytes.hexDigit n).toNat ≠ 47 := by decide
  have hplain (c : Char) (hc : c ∈ (String.ofList (Bytes.toHex suffix)).toList) : c.toNat < 0x80 ∧ c.toNat ≠ 47 := by
    rw [String.toList_ofList] at hc
    obtain ⟨n, hn, rfl⟩ := Bytes.mem_toHex hc
    exact hdigit n hn
  intro hmem
  obtain ⟨c, hc, hvalue⟩ := Utf8.mem_ofString_ascii (fun c hc => (hplain c hc).1) hmem
  exact (hplain c hc).2 hvalue

theorem slash_notMem_tempFile {e : String} (he : opaqueName 127 e = true) (suffix : Bytes) :
    slash ∉ tempFile (Bytes.ofString e) suffix := by
  have hstart : slash ∉ Bytes.ofString routeFilePrefix := by decide
  have hhyphen : slash ∉ Bytes.ofString "-" := by decide
  have hend : slash ∉ Bytes.ofString routeTempFileExtension := by decide
  simp only [tempFile, List.mem_append, not_or]
  exact ⟨⟨⟨⟨hstart, slash_notMem_valid he⟩, hhyphen⟩, slash_notMem_hex suffix⟩, hend⟩

theorem length_start : (Bytes.ofString routeFilePrefix).length = 12 := by decide

theorem isRouteFile_path {host : Host} (hdir : host.dir ≠ []) {e : String} (he : opaqueName 127 e = true) :
    IsRouteFile host (join host.dir (routeFile (Bytes.ofString e))) := by
  refine ⟨e, he, .inl (join_name hdir (slash_notMem_routeFile he) ?_)⟩
  simp only [routeFile, List.length_append, length_start]
  omega

theorem isRouteFile_tempPath {host : Host} (hdir : host.dir ≠ []) {e : String} (he : opaqueName 127 e = true)
    (suffix : Bytes) : IsRouteFile host (join host.dir (tempFile (Bytes.ofString e) suffix)) := by
  refine ⟨e, he, .inr ⟨suffix, join_name hdir (slash_notMem_tempFile he suffix) ?_⟩⟩
  simp only [tempFile, List.length_append, length_start]
  omega

-- What is reached by a detour and can be named at all is a route file.
theorem isRouteFile_of_detour {host : Host} (hdir : host.dir ≠ []) {id : Bytes} (h : Detour host.dir id)
    (haccepted : Path.refused (join host.dir (routeFile id)) = false) :
    IsRouteFile host (join host.dir (routeFile id)) := by
  obtain ⟨front, last, q, hsegments, hleads, hend⟩ := h
  have hpath := path_eq hdir hsegments
  rw [leads_iff.1 hleads] at hpath
  rcases hend with hrefused | ⟨rfl, e, he, rfl⟩
  · rw [hpath, refused_child_extension, hrefused] at haccepted
    cases haccepted
  · exact ⟨e, he, .inl hpath⟩

-- A route file is reached from the directory itself.
theorem detour_of_isRouteFile {host : Host} (hdir : host.dir ≠ []) {id : Bytes}
    (h : IsRouteFile host (join host.dir (routeFile id))) : Detour host.dir id := by
  obtain ⟨front, last, hsegments⟩ := exists_last (Bytes.ofString routeFilePrefix ++ id)
  obtain ⟨e, he, hfile⟩ := h
  rw [path_eq hdir hsegments] at hfile
  rcases hfile with hfile | ⟨suffix, hfile⟩
  · obtain ⟨hfront, hlast⟩ := child_injective hfile
    exact ⟨front, last, clean host.dir, hsegments, leads_iff.2 hfront, .inr ⟨rfl, e, he, List.append_cancel_right hlast⟩⟩
  · -- the extensions differ
    obtain ⟨-, hlast⟩ := child_injective hfile
    have hlength : (Bytes.ofString routeFileExtension).length = (Bytes.ofString routeTempFileExtension).length := by
      decide
    exact absurd (List.append_inj' hlast hlength).2 (by decide)

theorem valid_environment {r : EnvironmentRoute} (h : r.validate = .ok ()) : opaqueName 127 r.environmentID = true :=
  ((validate_eq_ok r).1 h).1

-- The path of a begun request that is not refused.
theorem isRouteFile_of_begun {host : Host} {req : Request} (hbegun : Begun host req)
    (hdetour : host.dir = [] ∨ 0 ∈ host.dir ∨ Detour host.dir req.environmentID)
    (haccepted : Path.refused (req.path host) = false) : IsRouteFile host (req.path host) := by
  rcases hdetour with hnil | hzero | hdetour
  · exact absurd hnil hbegun.nonempty
  · exact absurd hzero hbegun.named
  · exact isRouteFile_of_detour hbegun.nonempty hdetour haccepted

theorem touched_stat {host : Host} {req : Request} {a : Reply} :
    touched host req a .stat = if Path.refused (req.path host) = true then [] else [req.path host] := rfl

theorem confined_of_detour {host : Host} {req : Request}
    (hdetour : host.dir = [] ∨ 0 ∈ host.dir ∨ Detour host.dir req.environmentID) : Confined host req := by
  intro requests fs turns t a hreq p hp
  have hsound := run_sound host requests fs turns t
  rw [hreq] at hsound
  generalize ((server host requests).run (start fs) turns).stage t = s at hp hsound
  -- a temporary file is one of a valid route
  have htemp (hs : s.temp = some p) : IsRouteFile host p := by
    obtain ⟨r, suffix, rfl, hbegun, rfl⟩ := hsound.named p hs
    exact isRouteFile_tempPath hbegun.nonempty (valid_environment (hbegun.valid r rfl)) suffix
  cases s with
  | stat =>
      rw [touched_stat] at hp
      by_cases hrefused : Path.refused (req.path host) = true
      · rw [if_pos hrefused] at hp
        exact absurd hp List.not_mem_nil
      · rw [if_neg hrefused] at hp
        rw [List.mem_singleton.1 hp]
        exact isRouteFile_of_begun (hsound.begun rfl) hdetour (Bool.eq_false_iff.2 hrefused)
  | read =>
      rw [List.mem_singleton.1 hp]
      exact isRouteFile_of_begun (hsound.begun rfl) hdetour (hsound.accepted (.inl rfl))
  | unlink =>
      rw [List.mem_singleton.1 hp]
      exact isRouteFile_of_begun (hsound.begun rfl) hdetour (hsound.accepted (.inr rfl))
  | create attempts previous =>
      obtain ⟨r, rfl⟩ := hsound.creating attempts previous rfl
      obtain ⟨suffix, -, rfl⟩ := Option.map_eq_some_iff.1 (Option.mem_toList.1 hp)
      have hbegun := hsound.begun rfl
      exact isRouteFile_tempPath hbegun.nonempty (valid_environment (hbegun.valid r rfl)) suffix
  | write temp previous => exact htemp (by rw [List.mem_singleton.1 hp]; rfl)
  | sync temp previous => exact htemp (by rw [List.mem_singleton.1 hp]; rfl)
  | close temp previous => exact htemp (by rw [List.mem_singleton.1 hp]; rfl)
  | cleanup temp error => exact htemp (by rw [List.mem_singleton.1 hp]; rfl)
  | rename temp previous =>
      rcases List.mem_cons.1 hp with rfl | hp
      · exact htemp rfl
      · rw [List.mem_singleton.1 hp]
        obtain ⟨r, -, rfl, hbegun, -⟩ := hsound.named temp rfl
        exact isRouteFile_path hbegun.nonempty (valid_environment (hbegun.valid r rfl))
  | _ => exact absurd hp List.not_mem_nil

-- The directory passes the check and the call does not fail.
def granted (host : Host) : Reply := ⟨false, false, 0, none, ⟨.directory, host.uid, 0⟩⟩

theorem verify_granted {host : Host} (hdir : host.dir ≠ []) (hzero : 0 ∉ host.dir) (id : Bytes) :
    afterVerify host (.remove id) (granted host) = .stat := by
  have hverify : verifyDirectory host (granted host) = .ok () := by
    rw [verifyDirectory, if_neg (by simp [hdir, hzero, granted])]
    simp [granted, checkDirectoryPolicy, require]
  simp only [afterVerify, hverify]

-- Every operation on an environment stays at the route files of valid environments, exactly when the directory is
-- refused or the identifier leads to one of them, directly or by a detour.
theorem routes_confined_iff (host : Host) (id : Bytes) :
    (∀ req : Request, req.environmentID = id → Confined host req) ↔
      host.dir = [] ∨ 0 ∈ host.dir ∨ Detour host.dir id := by
  constructor
  · intro h
    by_cases hdir : host.dir = []
    · exact .inl hdir
    by_cases hzero : 0 ∈ host.dir
    · exact .inr (.inl hzero)
    refine .inr (.inr ?_)
    -- a removal whose directory passes looks at the path next
    have hstage : ((server host fun _ => .remove id).run (start fun _ => none) [(0, granted host)]).stage 0 = .stat :=
      verify_granted hdir hzero id
    have htouched := h (.remove id) rfl (fun _ => .remove id) (fun _ => none) [(0, granted host)] 0 (granted host) rfl
    rw [hstage, touched_stat] at htouched
    by_cases hrefused : Path.refused (Request.path host (.remove id)) = true
    · obtain ⟨front, last, hsegments⟩ := exists_last (Bytes.ofString routeFilePrefix ++ id)
      have hpath : Request.path host (.remove id) = _ := path_eq hdir hsegments
      rw [hpath, refused_child_extension] at hrefused
      exact ⟨front, last, _, hsegments, leads_iff.2 rfl, .inl hrefused⟩
    · refine detour_of_isRouteFile hdir (htouched _ ?_)
      rw [if_neg hrefused]
      exact List.mem_singleton_self _
  · rintro h req rfl
    exact confined_of_detour h

-- The agent's own directory.
def srvRoutes : Host := ⟨Bytes.ofString "/srv/routes", 1000⟩

-- Two steps up, and a removal is about a file beside the directory.
theorem removal_leaves_directory : ¬ ∀ host req, Confined host req := by
  intro h
  have htouched := h srvRoutes (.remove (Bytes.ofString "x/../../other"))
    (fun _ => .remove (Bytes.ofString "x/../../other")) (fun _ => some (.file [])) [(0, granted srvRoutes)] 0
    (granted srvRoutes) rfl ⟨true, [Bytes.ofString "srv", Bytes.ofString "other.yml"]⟩ (by decide)
  obtain ⟨e, -, hfile⟩ := htouched
  have hdir : (clean srvRoutes.dir).parts.length = 2 := by decide
  have hparts : ∀ name, (⟨true, [Bytes.ofString "srv", Bytes.ofString "other.yml"]⟩ : Path) ≠
      (clean srvRoutes.dir).child name := by
    intro name hname
    have hlength := congrArg (fun p => p.parts.length) hname
    simp only [Path.child, List.length_append, hdir] at hlength
    simp at hlength
  rcases hfile with hfile | ⟨suffix, hfile⟩
  · exact hparts _ hfile
  · exact hparts _ hfile

end AutoDeploy.Traefik
