/-
  Naitron.Server.ControlCall

  A command on its way over the control socket: `ntc_control_call` of
  control_client.c writes the token and the command as one line, the gateway
  collects it from whatever `recv` gives it, between events of other objects,
  executes it and writes the reply, which the caller reads to its end.

  Along a run the events of a control client collect its line
  (`OnlyCollects`), up to the one that brings the newline.
-/

import Mathlib.Data.List.DropRight
import Naitron.Server.Batch
import Naitron.Server.Ipc
import Naitron.Server.Login

namespace Naitron

-- ============================================================================
-- The caller
-- ============================================================================

/-- Size of the caller's line. -/
def controlLineCap : Nat := 2048

/-- `snprintf(line, sizeof line, "%s %s\n", token, command)`; `none` where it
    does not fit. -/
def ntcControlCallLine (token command : Bytes) : Option Bytes :=
  let line := cstr token ++ chSpace :: cstr command ++ [chLf]
  if controlLineCap ≤ line.length then none else some line

/-- A loop around `write`: the bytes that went out, and whether those were
    all. -/
def writeLoop : List SendResult → Bytes → Bytes × Bool
  | _, [] => ([], true)
  | .more n :: rs, b :: bs =>
      let r := writeLoop rs ((b :: bs).drop (n + 1))
      ((b :: bs).take (n + 1) ++ r.1, r.2)
  | .eintr :: rs, b :: bs => writeLoop rs (b :: bs)
  | _, _ => ([], false)

/-- `cctrl_reply`: what goes out before it closes the socket. -/
def cctrlReply (sends : List SendResult) (msg : Bytes) : Bytes := (writeLoop sends msg).1

/-- The loop around `read`, into a buffer of `cap` bytes; `none` after an
    error, or while the reply has no end yet. -/
def readLoop (cap : Nat) : List RecvResult → Bytes → Option Bytes
  | rs, out =>
      if cap ≤ out.length + 1 then some out
      else
        match rs with
        | .data b bs :: rs => readLoop cap rs (out ++ (b :: bs).take (cap - 1 - out.length))
        | .eintr :: rs => readLoop cap rs out
        | .eof :: _ => some out
        | _ => none

/-- `ntc_control_call` on a socket that is connected: what is left in `out`. -/
def ntcControlCall (cap : Nat) (token command : Bytes) (sends : List SendResult)
    (reads : List RecvResult) : Option Bytes :=
  (ntcControlCallLine token command).bind fun line =>
    if (writeLoop sends line).2 then readLoop cap reads [] else none

-- ============================================================================
-- The token
-- ============================================================================

/-- `gen_token`, from the bytes of /dev/urandom where it can be read. -/
def genToken : Option (RandomBytes 16) → Bytes
  | none => lit "ntc-insecure-token"
  | some b => b.1.flatMap hexPair

/-- The token `load_token` leaves in the gateway: the stored one, else a new
    one. -/
def loadToken (stored : Option Bytes) (random : Option (RandomBytes 16)) : CStr 65 :=
  .set 65 (stored.getD (genToken random))

/-- What `load_token` writes into the token file. -/
def tokenFile (token : Bytes) : Bytes := token ++ [chLf]

/-- What `fgets` leaves in a buffer of `cap` bytes. -/
def fgets (cap : Nat) (s : Bytes) : Bytes :=
  (s.takeWhile (· != chLf) ++ (s.dropWhile (· != chLf)).take 1).take (cap - 1)

/-- `ntc_control_read_token`: from the environment, else from the token file;
    `none` is NTC_ERR_NOT_FOUND. -/
def ntcControlReadToken (cap : Nat) (env file : Option Bytes) : Option Bytes :=
  match env with
  | some (c :: e) => some (clip cap (c :: e))
  | _ =>
      file.bind fun s =>
        if fgets cap s = [] then none
        else some ((cstr (fgets cap s)).rdropWhile fun c => c == chLf || c == chCr)

-- ============================================================================
-- What the gateway executes
-- ============================================================================

variable (E : Ext)

/-- What `process_control` makes of the command of a line, `none` with a wrong
    token: the text for `cctrl_reply`, and the gateway. -/
def controlOutcome (g : Gateway) : Option Bytes → Bytes × Gateway
  | none => (lit "ERR unauthorized\n", g)
  | some cmd => (clip 8192 (execControlCommand E g cmd).1, (execControlCommand E g cmd).2)

theorem controlOutcome_some (g : Gateway) (cmd : Bytes) :
    (controlOutcome E g (some cmd)).2 = (execControlCommand E g cmd).2 := rfl

theorem processControl_eq (g : Gateway) (cc : CctrlId) (buf : Bytes) :
    processControl E g cc buf =
      dropCctrl (controlOutcome E g (controlCommand g.token.bytes buf)).2 cc := by
  rw [processControl]
  cases controlCommand g.token.bytes buf with
  | none => rfl
  | some cmd => rfl

/-- Along a run the events of a control client change its own buffer and
    nothing else. -/
def OnlyCollects (cc : CctrlId) : Gateway → List Input → Prop
  | _, [] => True
  | g, i :: is =>
      (∀ rs, i = .event (.control cc true rs) →
        ∃ x, step E g i = { g with cctrls := Function.update g.cctrls cc x }) ∧
      OnlyCollects cc (step E g i) is

/-- What `recv` has for it in a step. -/
def controlRecvs (cc : CctrlId) : Input → List RecvResult
  | .event (.control cc' true rs) => if cc' = cc then rs else []
  | _ => []

/-- The bytes that arrive from it along a run. -/
def controlBytes (cc : CctrlId) (is : List Input) : Bytes :=
  is.flatMap fun i => recvBytes (controlRecvs cc i)

/-- It has not closed its end. -/
def ControlOpen (cc : CctrlId) (is : List Input) : Prop :=
  ∀ i ∈ is, recvEnds (controlRecvs cc i) = false

-- ============================================================================
-- Nothing else touches a control client
-- ============================================================================

variable {E}

/-- A control client changes when it is served. -/
theorem Micro.cctrl_eq {f f' : Flight} {l : Label} {cc : CctrlId} (h : Micro f l f')
    (hl : l ≠ .operator cc) (hcc : cc < f.ncctrl) :
    f'.cctrls cc = f.cctrls cc ∧ cc < f'.ncctrl := by
  cases h with
  | operator j x =>
      have hj : cc ≠ j := fun hj => hl (by rw [hj])
      exact ⟨Function.update_of_ne hj _ _, hcc⟩
  | greet => exact ⟨Function.update_of_ne hcc.ne _ _, Nat.lt_succ_of_lt hcc⟩
  | _ => exact ⟨rfl, hcc⟩

theorem Moves.cctrl_eq {P : Label → Prop} {f f' : Flight} {cc : CctrlId} (h : Moves P f f')
    (hP : ∀ l, P l → l ≠ .operator cc) (hcc : cc < f.ncctrl) :
    f'.cctrls cc = f.cctrls cc ∧ cc < f'.ncctrl :=
  h.keep (I := fun x => x.cctrls cc = f.cctrls cc ∧ cc < x.ncctrl)
    (fun hl hm hs => by
      obtain ⟨heq, hlt⟩ := hm.cctrl_eq (hP _ hl) hs.2
      exact ⟨heq.trans hs.1, hlt⟩)
    ⟨rfl, hcc⟩

/-- Numbers of control clients are not used again. -/
theorem handleEvent_ncctrl {g : Gateway} (h : Inv g.toFlight) (e : Event) :
    g.ncctrl ≤ (handleEvent E g e).ncctrl := by
  refine (handleEvent_moves E h e false fun hf => (nomatch hf)).keep
    (I := fun x => g.ncctrl ≤ x.ncctrl) (fun _ hm hle => hle.trans ?_) le_rfl
  cases hm with
  | greet => exact Nat.le_succ _
  | _ => exact le_rfl

/-- The control client and the bound on their numbers, before and after. -/
def KeepsCctrl (cc : CctrlId) (g g' : Gateway) : Prop :=
  cc < g.ncctrl → g'.cctrls cc = g.cctrls cc ∧ cc < g'.ncctrl

theorem KeepsCctrl.rfl {cc : CctrlId} {g : Gateway} : KeepsCctrl cc g g := fun h => ⟨by rfl, h⟩

theorem KeepsCctrl.trans {cc : CctrlId} {g g₁ g₂ : Gateway} (h : KeepsCctrl cc g g₁)
    (h' : KeepsCctrl cc g₁ g₂) : KeepsCctrl cc g g₂ := fun hcc =>
  ⟨(h' (h hcc).2).1.trans (h hcc).1, (h' (h hcc).2).2⟩

/-- A change of other fields. -/
theorem KeepsCctrl.of_eq {cc : CctrlId} {g g' : Gateway} (h : g'.cctrls = g.cctrls)
    (h' : g'.ncctrl = g.ncctrl) : KeepsCctrl cc g g' := fun hcc =>
  ⟨congrFun h cc, hcc.trans_eq h'.symm⟩

theorem KeepsCctrl.foldl {α : Type} {cc : CctrlId} {body : Gateway → α → Gateway}
    (h : ∀ g x, KeepsCctrl cc g (body g x)) (xs : List α) :
    ∀ g, KeepsCctrl cc g (xs.foldl body g) := by
  induction xs with
  | nil => exact fun g => .rfl
  | cons x xs ih => exact fun g => (h g x).trans (ih (body g x))

theorem dropReplica_keepsCctrl (cc : CctrlId) (g : Gateway) (i s : Nat) (ct : CtrlId) :
    KeepsCctrl cc g (dropReplica g i s ct) := .of_eq rfl rfl

theorem failInflight_keepsCctrl (cc : CctrlId) (ct : CtrlId) (body : Bytes) (g : Gateway) :
    KeepsCctrl cc g (failInflight E ct body g) := by
  refine (failInflight_moves E ct body g).cctrl_eq fun l hl => ?_
  obtain ⟨k, -, hl⟩ := hl
  exact hl.spares.2 cc

theorem devReloadSlot_keepsCctrl (cc : CctrlId) (i : Nat) (g : Gateway) (s : Nat) :
    KeepsCctrl cc g (devReloadSlot E i g s) := by
  have hteardown : KeepsCctrl cc g (devTeardownSlot E g i s) := by
    rw [devTeardownSlot]
    split
    · exact .rfl
    · exact (failInflight_keepsCctrl cc _ _ g).trans (dropReplica_keepsCctrl cc _ i s _)
  exact hteardown.trans (.of_eq rfl rfl)

theorem devWatchService_keepsCctrl (cc : CctrlId) (g : Gateway) (i : Nat) :
    KeepsCctrl cc g (devWatchService E g i) := by
  have hreload : ∀ g : Gateway, KeepsCctrl cc g (devReloadService E g i) := by
    intro g
    rw [devReloadService]
    split
    · exact .rfl
    · exact .foldl (devReloadSlot_keepsCctrl cc i) _ g
  rw [devWatchService]
  split
  · exact .rfl
  · split
    · exact .rfl
    · dsimp only
      split
      · exact .of_eq rfl rfl
      · split
        · exact .of_eq rfl rfl
        · split
          · refine KeepsCctrl.trans ?_ (hreload _)
            exact .of_eq rfl rfl
          · exact .of_eq rfl rfl

theorem devTick_keepsCctrl (cc : CctrlId) (g : Gateway) : KeepsCctrl cc g (devTick E g) := by
  rw [devTick]
  split
  · exact .rfl
  · dsimp only
    split
    · exact .of_eq rfl rfl
    · refine KeepsCctrl.trans ?_ (.foldl (devWatchService_keepsCctrl cc) _ _)
      exact .of_eq rfl rfl

/-- A step that is not an event of the client. -/
theorem step_keepsCctrl {g : Gateway} (h : Inv g.toFlight) {cc : CctrlId} {i : Input}
    (hi : ∀ rs, i ≠ .event (.control cc true rs)) : KeepsCctrl cc g (step E g i) := by
  cases i with
  | tick =>
      refine KeepsCctrl.trans (devTick_keepsCctrl (E := E) cc g) ?_
      have hdev : Inv (devTick E g).toFlight := Moves.inv (devTick_moves E h) h
      refine (supervise_moves E hdev).cctrl_eq fun l hl => ?_
      obtain rfl | ⟨ct, rfl⟩ := hl
      · exact fun hl => (nomatch hl)
      · exact fun hl => (nomatch hl)
  | event e =>
      have hmoves := handleEvent_moves E h e false fun hf => (nomatch hf)
      have hother : Spares E g e (.control cc true []) →
          KeepsCctrl cc g (step E g (.event e)) := by
        intro hs hcc
        refine hmoves.cctrl_eq (fun l hl => ?_) hcc
        rintro rfl
        exact Handles.spares_control E hs hl
      cases e with
      | control cc' read rs =>
          cases read with
          | false => exact .rfl
          | true =>
              apply hother
              refine ⟨fun hcc => ?_, trivial⟩
              apply hi rs
              rw [show cc' = cc from hcc]
      | _ => exact hother ⟨id, trivial⟩

-- ============================================================================
-- The line
-- ============================================================================

/-- Of a line with its newline at the end, what has come is all of it or has
    no newline. -/
theorem mem_lf_front {pre buf : Bytes} (hpre : chLf ∉ pre) (h : buf <+: pre ++ [chLf]) :
    chLf ∈ buf ↔ buf = pre ++ [chLf] := by
  constructor
  · intro hmem
    obtain heq | hfront := List.prefix_concat_iff.mp h
    · exact heq
    · exact absurd (hfront.subset hmem) hpre
  · rintro rfl
    exact List.mem_append_right pre List.mem_cons_self

/-- What `on_control_readable` makes of the next bytes of such a line. -/
theorem controlRecv_line {pre : Bytes} (hpre : chLf ∉ pre) (hlen : pre.length + 1 < cctrlBuf - 1)
    {rs : List RecvResult} (hopen : recvEnds rs = false) :
    ∀ {buf : Bytes}, chLf ∉ buf → buf ++ recvBytes rs <+: pre ++ [chLf] →
      controlRecv rs buf =
        if buf ++ recvBytes rs = pre ++ [chLf] then .line (pre ++ [chLf])
        else .wait (buf ++ recvBytes rs) := by
  have hroom : ∀ {buf more : Bytes}, buf ++ more <+: pre ++ [chLf] →
      buf.length + more.length < cctrlBuf - 1 := by
    intro buf more h
    have hle := h.length_le
    rw [List.length_append, List.length_append, List.length_singleton] at hle
    omega
  have hwait : ∀ {buf : Bytes}, chLf ∉ buf → ¬ buf ++ [] = pre ++ [chLf] := by
    rintro buf hlf heq
    rw [List.append_nil] at heq
    rw [heq] at hlf
    exact hlf (List.mem_append_right pre List.mem_cons_self)
  induction rs with
  | nil =>
      intro buf hlf h
      have hbuf := hroom h
      have hsmall : ¬ cctrlBuf - 1 ≤ buf.length := by omega
      rw [controlRecv.eq_def]
      dsimp only
      rw [if_neg hsmall, show recvBytes [] = [] from rfl, if_neg (hwait hlf), List.append_nil]
  | cons r rs ih =>
      intro buf hlf h
      have hbuf := hroom h
      have hsmall : ¬ cctrlBuf - 1 ≤ buf.length := by omega
      rw [controlRecv.eq_def]
      dsimp only
      rw [if_neg hsmall]
      cases r with
      | data b bs =>
          rw [recvBytes, ← List.append_assoc] at h ⊢
          rw [recvBytes, List.length_append] at hbuf
          have htake : (b :: bs).take (cctrlBuf - 1 - buf.length) = b :: bs :=
            List.take_of_length_le (by omega)
          have hsome : buf ++ b :: bs <+: pre ++ [chLf] := (List.prefix_append _ _).trans h
          dsimp only
          rw [htake]
          by_cases hdone : buf ++ b :: bs = pre ++ [chLf]
          · have hrest : recvBytes rs = [] := by
              rw [hdone] at h
              exact List.append_right_eq_self.mp
                (h.eq_of_length_le (List.prefix_append _ _).length_le)
            have hmem := (mem_lf_front hpre hsome).mpr hdone
            rw [if_pos (List.contains_iff_mem.mpr hmem), hrest, List.append_nil, if_pos hdone,
              hdone]
          · have hnot : chLf ∉ buf ++ b :: bs := fun hmem =>
              hdone ((mem_lf_front hpre hsome).mp hmem)
            rw [if_neg fun hmem => hnot (List.contains_iff_mem.mp hmem)]
            exact ih hopen hnot h
      | eintr => exact ih hopen hlf h
      | eagain =>
          rw [show recvBytes (.eagain :: rs) = [] from rfl, if_neg (hwait hlf), List.append_nil]
      | eof => cases hopen
      | error => cases hopen

/-- The line as the gateway takes it apart. -/
theorem controlCommand_line {tok cmd line : Bytes} (hline : ntcControlCallLine tok cmd = some line)
    (htok : chSpace ∉ tok ∧ chLf ∉ tok ∧ 0 ∉ tok) (hcmd : chLf ∉ cmd ∧ 0 ∉ cmd) :
    (∃ pre, line = pre ++ [chLf] ∧ chLf ∉ pre ∧ pre.length + 1 < cctrlBuf - 1) ∧
      ∀ token, controlCommand token line = if tok = token then some cmd else none := by
  rw [ntcControlCallLine, cstr_of_noNul htok.2.2, cstr_of_noNul hcmd.2] at hline
  split_ifs at hline with hfits
  obtain rfl := Option.some.inj hline
  have hlf : chLf ∉ tok ++ chSpace :: cmd := by
    rw [List.mem_append, List.mem_cons]
    rintro (h | h | h)
    · exact htok.2.1 h
    · cases h
    · exact hcmd.1 h
  have hnul : 0 ∉ tok ++ chSpace :: cmd := by
    rw [List.mem_append, List.mem_cons]
    rintro (h | h | h)
    · exact htok.2.2 h
    · cases h
    · exact hcmd.2 h
  refine ⟨⟨_, rfl, hlf, ?_⟩, fun token => ?_⟩
  · rw [List.length_append, List.length_singleton] at hfits
    have hcap : controlLineCap = 2048 := rfl
    have hbuf : cctrlBuf = 4096 := rfl
    omega
  have hstop : ∀ c ∈ tok ++ chSpace :: cmd, (c != chLf) = true := fun c hc =>
    bne_iff_ne.mpr fun heq => hlf (heq ▸ hc)
  have hcut : (tok ++ chSpace :: cmd ++ [chLf]).takeWhile (· != chLf) = tok ++ chSpace :: cmd := by
    rw [List.takeWhile_append_of_pos hstop]
    exact List.append_nil _
  have hword : ∀ c ∈ tok, (c != chSpace) = true := fun c hc =>
    bne_iff_ne.mpr fun heq => htok.1 (heq ▸ hc)
  have htake : (tok ++ chSpace :: cmd).takeWhile (· != chSpace) = tok := by
    rw [List.takeWhile_append_of_pos hword]
    exact List.append_nil _
  have hdrop : (tok ++ chSpace :: cmd).dropWhile (· != chSpace) = chSpace :: cmd := by
    rw [List.dropWhile_append_of_pos hword]
    rfl
  rw [controlCommand, hcut, cstr_of_noNul hnul, htake, hdrop]
  rfl

-- ============================================================================
-- Runs
-- ============================================================================

/-- A step that is not an event of the client brings nothing from it. -/
theorem controlRecvs_other {cc : CctrlId} {i : Input}
    (hi : ∀ rs, i ≠ .event (.control cc true rs)) : controlRecvs cc i = [] := by
  unfold controlRecvs
  split
  · next cc' rs =>
    have hne : cc' ≠ cc := fun heq => hi rs (by rw [heq])
    exact if_neg hne
  · rfl

/-- An event of the client that leaves its line open. -/
theorem step_wait {g : Gateway} {cc : CctrlId} {got buf : Bytes} {rs : List RecvResult}
    (hgot : g.cctrls cc = some ⟨got⟩) (hread : controlRecv rs got = .wait buf) :
    step E g (.event (.control cc true rs)) =
      { g with cctrls := Function.update g.cctrls cc (some ⟨buf⟩) } := by
  show onControlReadable E g cc rs = _
  rw [onControlReadable, hgot]
  dsimp only
  rw [hread]

/-- An event with the end of the line: it is processed, and the client is
    gone. -/
theorem step_line {g : Gateway} {cc : CctrlId} {got buf : Bytes} {rs : List RecvResult}
    (hgot : g.cctrls cc = some ⟨got⟩) (hread : controlRecv rs got = .line buf) :
    step E g (.event (.control cc true rs)) =
      dropCctrl (controlOutcome E g (controlCommand g.token.bytes buf)).2 cc := by
  show onControlReadable E g cc rs = _
  rw [onControlReadable, hgot]
  dsimp only
  rw [hread]
  exact processControl_eq E g cc buf

/-- An event of a client that is gone. -/
theorem step_gone {g : Gateway} {cc : CctrlId} (rs : List RecvResult)
    (hnone : g.cctrls cc = none) : step E g (.event (.control cc true rs)) = g := by
  show onControlReadable E g cc rs = g
  rw [onControlReadable, hnone]

/-- A client that is gone stays gone. -/
theorem onlyCollects_gone {cc : CctrlId} {is : List Input} : ∀ {g : Gateway}, Inv g.toFlight →
    cc < g.ncctrl → g.cctrls cc = none → OnlyCollects E cc g is := by
  induction is with
  | nil => exact fun _ _ _ => trivial
  | cons i is ih =>
      intro g h hcc hnone
      by_cases hi : ∃ rs, i = .event (.control cc true rs)
      · obtain ⟨rs, rfl⟩ := hi
        refine ⟨fun _ _ => ⟨none, ?_⟩, ?_⟩
        · rw [step_gone rs hnone, ← hnone, Function.update_eq_self]
        · rw [step_gone rs hnone]
          exact ih h hcc hnone
      · obtain ⟨heq, hlt⟩ := step_keepsCctrl (E := E) h (fun rs hrs => hi ⟨rs, hrs⟩) hcc
        exact ⟨fun rs hrs => absurd ⟨rs, hrs⟩ hi, ih (step_inv E i h) hlt (heq.trans hnone)⟩

/-- A run with a client that has sent `got`, the beginning of its line. -/
theorem onlyCollects_run {pre : Bytes} (hpre : chLf ∉ pre) (hlen : pre.length + 1 < cctrlBuf - 1)
    {cc : CctrlId} {is : List Input} : ∀ {g : Gateway} {got : Bytes}, Inv g.toFlight →
    cc < g.ncctrl → g.cctrls cc = some ⟨got⟩ → chLf ∉ got → ControlOpen cc is →
    got ++ controlBytes cc is <+: pre ++ [chLf] →
      (got ++ controlBytes cc is ≠ pre ++ [chLf] → OnlyCollects E cc g is) ∧
      (got ++ controlBytes cc is = pre ++ [chLf] → ∃ js rs ks g' r,
        is = js ++ .event (.control cc true rs) :: ks ∧ g' = js.foldl (step E) g ∧
        r = controlOutcome E g' (controlCommand g'.token.bytes (pre ++ [chLf])) ∧
        OnlyCollects E cc g js ∧
        step E g' (.event (.control cc true rs)) = dropCctrl r.2 cc ∧
        OnlyCollects E cc (dropCctrl r.2 cc) ks) := by
  induction is with
  | nil =>
      intro g got _ _ _ hlf _ _
      rw [show controlBytes cc [] = [] from rfl, List.append_nil]
      refine ⟨fun _ => trivial, fun heq => ?_⟩
      rw [heq] at hlf
      exact absurd (List.mem_append_right pre List.mem_cons_self) hlf
  | cons i is ih =>
      intro g got h hcc hgot hlf hopen hbytes
      have hi : recvEnds (controlRecvs cc i) = false := hopen i List.mem_cons_self
      have hrest : ControlOpen cc is := fun j hj => hopen j (List.mem_cons_of_mem i hj)
      have hsplit : got ++ controlBytes cc (i :: is) =
          got ++ recvBytes (controlRecvs cc i) ++ controlBytes cc is := by
        rw [controlBytes, List.flatMap_cons, ← List.append_assoc]
        rfl
      rw [hsplit] at hbytes ⊢
      have hsome : got ++ recvBytes (controlRecvs cc i) <+: pre ++ [chLf] :=
        (List.prefix_append _ _).trans hbytes
      by_cases hevent : ∃ rs, i = .event (.control cc true rs)
      · obtain ⟨rs, rfl⟩ := hevent
        have hrecvs : controlRecvs cc (.event (.control cc true rs)) = rs := if_pos rfl
        rw [hrecvs] at hi hsome hbytes ⊢
        have hread := controlRecv_line hpre hlen hi hlf hsome
        have hlt : cc < (step E g (.event (.control cc true rs))).ncctrl :=
          hcc.trans_le (handleEvent_ncctrl (E := E) h _)
        have hinv : Inv (step E g (.event (.control cc true rs))).toFlight := step_inv E _ h
        by_cases hdone : got ++ recvBytes rs = pre ++ [chLf]
        · -- the line is complete: nothing more can come
          rw [if_pos hdone] at hread
          have hstep := step_line (E := E) hgot hread
          rw [hstep] at hlt hinv
          have hnil : controlBytes cc is = [] := by
            rw [hdone] at hbytes
            exact List.append_right_eq_self.mp
              (hbytes.eq_of_length_le (List.prefix_append _ _).length_le)
          rw [hnil, List.append_nil]
          refine ⟨fun hne => absurd hdone hne, fun _ => ⟨[], rs, is, g, _, rfl, rfl, rfl, trivial,
            hstep, ?_⟩⟩
          exact onlyCollects_gone hinv hlt (Function.update_self _ _ _)
        · rw [if_neg hdone] at hread
          have hstep := step_wait (E := E) hgot hread
          have hgot' : (step E g (.event (.control cc true rs))).cctrls cc =
              some ⟨got ++ recvBytes rs⟩ := by
            rw [hstep]
            exact Function.update_self _ _ _
          have hlf' : chLf ∉ got ++ recvBytes rs := fun hmem =>
            hdone ((mem_lf_front hpre hsome).mp hmem)
          obtain ⟨hwait, hend⟩ := ih hinv hlt hgot' hlf' hrest hbytes
          refine ⟨fun hmore => ⟨fun _ _ => ⟨_, hstep⟩, hwait hmore⟩, fun hall => ?_⟩
          obtain ⟨js, rs', ks, g', r, rfl, hg', hr, hfront, hline, hback⟩ := hend hall
          exact ⟨_ :: js, rs', ks, g', r, rfl, hg', hr, ⟨fun _ _ => ⟨_, hstep⟩, hfront⟩, hline,
            hback⟩
      · have hne : ∀ rs, i ≠ .event (.control cc true rs) := fun rs hrs => hevent ⟨rs, hrs⟩
        obtain ⟨hsame, hlt⟩ := step_keepsCctrl (E := E) h hne hcc
        rw [controlRecvs_other hne, show recvBytes [] = [] from rfl, List.append_nil] at hbytes ⊢
        obtain ⟨hwait, hdone⟩ := ih (step_inv E i h) hlt (hsame.trans hgot) hlf hrest hbytes
        refine ⟨fun hmore => ⟨fun rs hrs => absurd hrs (hne rs), hwait hmore⟩, fun hall => ?_⟩
        obtain ⟨js, rs, ks, g', r, rfl, hg', hr, hfront, hline, hback⟩ := hdone hall
        exact ⟨i :: js, rs, ks, g', r, rfl, hg', hr, ⟨fun rs hrs => absurd hrs (hne rs), hfront⟩,
          hline, hback⟩

-- ============================================================================
-- From the caller to its buffer
-- ============================================================================

/-- What is cut off by the room does not show behind it. -/
theorem take_append_take (s t u : Bytes) (n : Nat) :
    (s ++ t.take (n - s.length) ++ u).take n = (s ++ (t ++ u)).take n := by
  have hmin : ∀ a b : Nat, a - min a b = a - b := by omega
  rw [List.append_assoc, List.take_append, List.take_append, List.take_append, List.take_append,
    List.take_take, Nat.min_self, List.length_take, hmin]

/-- The caller's `read` loop, up to the end of the reply. -/
theorem readLoop_reply {cap : Nat} (hcap : 1 ≤ cap) {rs : List RecvResult}
    (hrs : ∀ r ∈ rs, r ≠ .eof ∧ r ≠ .eagain ∧ r ≠ .error) :
    ∀ {out : Bytes}, out.length ≤ cap - 1 →
      readLoop cap (rs ++ [.eof]) out = some ((out ++ recvBytes rs).take (cap - 1)) := by
  induction rs with
  | nil =>
      intro out hout
      rw [List.nil_append, readLoop.eq_def, show recvBytes [] = [] from rfl, List.append_nil,
        List.take_of_length_le hout]
      dsimp only
      split <;> rfl
  | cons r rs ih =>
      intro out hout
      have hrest : ∀ {out : Bytes}, out.length ≤ cap - 1 →
          readLoop cap (rs ++ [.eof]) out = some ((out ++ recvBytes rs).take (cap - 1)) :=
        ih fun r hr => hrs r (List.mem_cons_of_mem _ hr)
      rw [List.cons_append, readLoop.eq_def]
      dsimp only
      by_cases hfull : cap ≤ out.length + 1
      · have hlen : out.length = cap - 1 := by omega
        rw [if_pos hfull, ← hlen, List.take_left']
        rfl
      rw [if_neg hfull]
      obtain ⟨heof, hagain, herror⟩ := hrs r List.mem_cons_self
      cases r with
      | data b bs =>
          dsimp only
          rw [hrest]
          · rw [recvBytes, take_append_take]
          · rw [List.length_append, List.length_take]
            omega
      | eintr => exact hrest hout
      | eof => exact absurd rfl heof
      | eagain => exact absurd rfl hagain
      | error => exact absurd rfl herror

/-- The gateway after a client has connected to the control socket. -/
def controlAccepted (E : Ext) (g : Gateway) : Gateway := step E g (.event (.listenControl [true]))

/-- One call of `ntc_control_call` against any run of the gateway from any
    reachable state, in which the bytes of its line arrive in whatever pieces:
    before the newline is there, its events change nothing but its buffer; the
    event that brings the newline leaves the gateway that the command leaves, in
    the state of that moment; the events behind it change nothing; and the
    caller finds the reply to the command in its buffer. -/
theorem controlCall_once {g : Gateway} (hg : Reachable E g) {tok cmd line : Bytes}
    (hline : ntcControlCallLine tok cmd = some line)
    (htok : chSpace ∉ tok ∧ chLf ∉ tok ∧ 0 ∉ tok) (hcmd : chLf ∉ cmd ∧ 0 ∉ cmd)
    {is : List Input} (hopen : ControlOpen g.ncctrl is)
    (hbytes : controlBytes g.ncctrl is <+: line) :
    (controlBytes g.ncctrl is ≠ line → OnlyCollects E g.ncctrl (controlAccepted E g) is) ∧
      (controlBytes g.ncctrl is = line → ∃ js rs ks g' r,
        is = js ++ .event (.control g.ncctrl true rs) :: ks ∧
        g' = js.foldl (step E) (controlAccepted E g) ∧
        r = controlOutcome E g' (if tok = g'.token.bytes then some cmd else none) ∧
        OnlyCollects E g.ncctrl (controlAccepted E g) js ∧
        step E g' (.event (.control g.ncctrl true rs)) = dropCctrl r.2 g.ncctrl ∧
        OnlyCollects E g.ncctrl (dropCctrl r.2 g.ncctrl) ks ∧
        ∀ cap sends replySends reads, 1 ≤ cap → (writeLoop sends line).2 = true →
          (∀ r ∈ reads, r ≠ .eof ∧ r ≠ .eagain ∧ r ≠ .error) →
          recvBytes reads = cctrlReply replySends r.1 →
          ntcControlCall cap tok cmd sends (reads ++ [.eof]) =
            some ((cctrlReply replySends r.1).take (cap - 1))) := by
  obtain ⟨⟨pre, rfl, hpre, hlen⟩, hcommand⟩ := controlCommand_line hline htok hcmd
  have hinv : Inv (controlAccepted E g).toFlight := step_inv E _ (ReachableBy.inv E hg)
  have hnew : (controlAccepted E g).cctrls g.ncctrl = some ⟨[]⟩ := Function.update_self _ _ _
  have hlt : g.ncctrl < (controlAccepted E g).ncctrl := Nat.lt_succ_self _
  obtain ⟨hwait, hdone⟩ := onlyCollects_run hpre hlen hinv hlt hnew List.not_mem_nil hopen hbytes
  refine ⟨hwait, fun hall => ?_⟩
  obtain ⟨js, rs, ks, g', r, his, hg', hr, hfront, hstep, hback⟩ := hdone hall
  rw [hcommand] at hr
  refine ⟨js, rs, ks, g', r, his, hg', hr, hfront, hstep, hback,
    fun cap sends replySends reads hcap hsent hreads hreply => ?_⟩
  rw [ntcControlCall, hline, Option.bind_some, if_pos hsent,
    readLoop_reply hcap hreads (Nat.zero_le _), List.nil_append, hreply]

-- ============================================================================
-- The token of a new gateway
-- ============================================================================

theorem bytes_of_all {s : Bytes}
    (h : (s.all fun c => c != 0 && c != chLf && c != chCr && c != chSpace) = true) :
    ∀ c ∈ s, c ≠ 0 ∧ c ≠ chLf ∧ c ≠ chCr ∧ c ≠ chSpace := by
  intro c hc
  have hall := List.all_eq_true.mp h c hc
  simp only [Bool.and_eq_true, bne_iff_ne] at hall
  exact ⟨hall.1.1.1, hall.1.1.2, hall.1.2, hall.2⟩

/-- What is in a new token: digits, letters and hyphens. -/
theorem genToken_bytes (random : Option (RandomBytes 16)) :
    (genToken random).length ≤ 64 ∧
      ∀ c ∈ genToken random, c ≠ 0 ∧ c ≠ chLf ∧ c ≠ chCr ∧ c ≠ chSpace := by
  cases random with
  | none => exact ⟨by decide, bytes_of_all (by decide)⟩
  | some b =>
      have hdigits := bytes_of_all (s := tokenDigits) (by decide)
      have htoken : ntcRandomToken 65 (some b) = some (genToken (some b)) := rfl
      obtain ⟨hlen, -, hmem⟩ := ntcRandomToken_some htoken
      exact ⟨by omega, fun c hc => hdigits c (hmem c hc)⟩

/-- The token file is read back. -/
theorem ntcControlReadToken_tokenFile {token : Bytes} (hlen : token.length ≤ 64)
    (hbytes : ∀ c ∈ token, c ≠ 0 ∧ c ≠ chLf ∧ c ≠ chCr) :
    ntcControlReadToken 65 none (some (tokenFile token)) = some token := by
  have hword : ∀ c ∈ token, (c != chLf) = true := fun c hc => bne_iff_ne.mpr (hbytes c hc).2.1
  have hfgets : fgets 65 (tokenFile token) = token ++ [chLf].take (64 - token.length) := by
    rw [fgets, tokenFile, List.takeWhile_append_of_pos hword, List.dropWhile_append_of_pos hword]
    show (token ++ [] ++ [chLf]).take 64 = _
    rw [List.append_nil, List.take_append, List.take_of_length_le hlen]
  have hline : fgets 65 (tokenFile token) ≠ [] := by
    intro hnil
    rw [hfgets, List.append_eq_nil_iff] at hnil
    obtain ⟨rfl, htake⟩ := hnil
    cases htake
  have hkeep : token.rdropWhile (fun c => c == chLf || c == chCr) = token := by
    refine List.rdropWhile_eq_self_iff.mpr fun hne hend => ?_
    obtain ⟨-, hlf, hcr⟩ := hbytes _ (List.getLast_mem hne)
    rw [Bool.or_eq_true, beq_iff_eq, beq_iff_eq] at hend
    exact hend.elim hlf hcr
  have hnul : 0 ∉ token ++ [chLf].take (64 - token.length) := by
    rw [List.mem_append]
    rintro (h | h)
    · exact (hbytes 0 h).1 rfl
    · exact absurd (List.mem_of_mem_take h) (by decide)
  rw [ntcControlReadToken, Option.bind_some, if_neg hline, hfgets, cstr_of_noNul hnul]
  · cases 64 - token.length with
    | zero => rw [List.take_zero, List.append_nil, hkeep]
    | succ k => rw [show [chLf].take (k + 1) = [chLf] from List.take_of_length_le (by simp),
        List.rdropWhile_concat_pos _ _ _ rfl, hkeep]
  · exact fun c e h => (nomatch h)

/-- A caller reads the token of a new gateway out of the token file, and it is
    one that a line can carry. -/
theorem loadToken_new (random : Option (RandomBytes 16)) :
    ntcControlReadToken 65 none (some (tokenFile (loadToken none random).bytes)) =
        some (loadToken none random).bytes ∧
      chSpace ∉ (loadToken none random).bytes ∧ chLf ∉ (loadToken none random).bytes ∧
      0 ∉ (loadToken none random).bytes := by
  obtain ⟨hlen, hbytes⟩ := genToken_bytes random
  have hnul : 0 ∉ genToken random := fun h => (hbytes 0 h).1 rfl
  have hload : (loadToken none random).bytes = genToken random := by
    show clip 65 (genToken random) = _
    rw [clip, cstr_of_noNul hnul, List.take_of_length_le hlen]
  rw [hload]
  refine ⟨?_, fun h => (hbytes _ h).2.2.2 rfl, fun h => (hbytes _ h).2.1 rfl, hnul⟩
  exact ntcControlReadToken_tokenFile hlen fun c hc =>
    ⟨(hbytes c hc).1, (hbytes c hc).2.1, (hbytes c hc).2.2.1⟩

/-- `ctl service-add` on a gateway that could not read /dev/urandom: the line
    comes in two pieces, around the work between two batches. -/
def addStart : Gateway := startServices quietExt (bootGateway [] [] (loadToken none none))

def addCommand : Bytes := lit "service-add api /bin/api"

def addFirst : Input := .event (.control 0 true (recvOf (lit "ntc-insecure-t") ++ [.eagain]))

def addLast : Input :=
  .event (.control 0 true (.eintr :: recvOf (lit "oken service-add api /bin/api\n")))

/-- The gateway when the newline comes. -/
def addMoment : Gateway :=
  step quietExt (step quietExt (controlAccepted quietExt addStart) addFirst) .tick

/-- The first event leaves the client there. -/
theorem addFirst_stays (g : Gateway) :
    step quietExt (controlAccepted quietExt addStart) addFirst ≠ dropCctrl g 0 := by
  intro heq
  have hsome : (step quietExt (controlAccepted quietExt addStart) addFirst).cctrls 0 ≠ none := by
    decide +kernel
  rw [heq, dropCctrl] at hsome
  exact hsome (Function.update_self (0 : CctrlId) (none : Option Cctrl) g.cctrls)

/-- The service is added when the line is complete, and the caller reads so. -/
theorem controlCall_once_add :
    step quietExt addMoment addLast =
        dropCctrl (execControlCommand quietExt addMoment addCommand).2 0 ∧
      ntcControlCall 8192 (lit "ntc-insecure-token") addCommand [.more 9, .eintr, .more 99]
        (recvOf (lit "OK service added\n") ++ [.eof]) = some (lit "OK service added\n") := by
  have hreach : Reachable quietExt addStart :=
    .start _ (bootGateway_fresh (fun _ h => absurd h List.not_mem_nil) _ _)
  have hopen : ∀ i ∈ [addFirst, .tick, addLast],
      recvEnds (controlRecvs addStart.ncctrl i) = false := by
    decide +kernel
  obtain ⟨js, rs, ks, g', r, hrun, hg', hr, -, hstep, -, hcall⟩ := (@controlCall_once quietExt
    _ hreach (lit "ntc-insecure-token") addCommand
    (lit "ntc-insecure-token service-add api /bin/api\n") (by decide) (by decide) (by decide)
    [addFirst, .tick, addLast] hopen (by decide +kernel)).2 (by decide +kernel)
  rw [show addStart.ncctrl = 0 from rfl] at hrun hstep
  -- the newline comes in the last event
  obtain ⟨rfl, hlast⟩ : js = [addFirst, .tick] ∧ addLast = .event (.control 0 true rs) := by
    match js, hrun, hg' with
    | [], hrun, hg' =>
        obtain ⟨hevent, -⟩ := List.cons.inj hrun
        rw [hg', ← hevent] at hstep
        exact absurd hstep (addFirst_stays _)
    | [i], hrun, _ =>
        obtain ⟨-, hrest⟩ := List.cons.inj hrun
        cases (List.cons.inj hrest).1
    | [i, j], hrun, _ =>
        obtain ⟨hi, hrest⟩ := List.cons.inj hrun
        obtain ⟨hj, hend⟩ := List.cons.inj hrest
        exact ⟨by rw [hi, hj], (List.cons.inj hend).1⟩
    | i :: j :: k :: js, hrun, _ =>
        have hlen := congrArg List.length hrun
        rw [List.length_append] at hlen
        simp only [List.length_cons, List.length_nil] at hlen
        omega
  have hmoment : g' = addMoment := by
    rw [hg', List.foldl_cons, List.foldl_cons, List.foldl_nil, addMoment]
  have htoken : lit "ntc-insecure-token" = addMoment.token.bytes := by decide +kernel
  rw [hmoment, if_pos htoken] at hr
  have hreply : (controlOutcome quietExt addMoment (some addCommand)).1 =
      lit "OK service added\n" := by decide +kernel
  rw [hmoment, ← hlast, hr, controlOutcome_some] at hstep
  rw [hr, hreply] at hcall
  exact ⟨hstep, hcall 8192 [.more 9, .eintr, .more 99] [.more 99]
    (recvOf (lit "OK service added\n")) (by decide) (by decide) (by decide) (by decide)⟩

end Naitron
