/-
  Naitron.Server.Mcp

  The MCP server of `src/core/mcp.c`: JSON-RPC messages that run control
  commands.

  A tool call puts argument strings of the message between blanks into a
  command line, which the gateway splits at blanks again.  `arg_str` refuses
  blanks and what does not fit, but not a NUL: the line is printed with `%s`,
  and the argument ends there.
-/

import Naitron.JsonEmit
import Naitron.Server.Commands

namespace Naitron

-- ============================================================================
-- Tools
-- ============================================================================

/-- An entry of `TOOLS_JSON`; all its properties are required strings. -/
structure McpTool where
  name : Bytes
  description : Bytes
  props : List Bytes

def inQuotes (s : Bytes) : Bytes := chQuote :: s ++ [chQuote]

def McpTool.json (t : McpTool) : Bytes :=
  lit "\x7b\"name\":" ++ inQuotes t.name ++ lit ",\"description\":" ++ inQuotes t.description ++
    lit ",\"inputSchema\":\x7b\"type\":\"object\",\"properties\":\x7b" ++
    [chComma].intercalate (t.props.map fun p => inQuotes p ++ lit ":\x7b\"type\":\"string\"\x7d") ++
    lit "\x7d" ++
    (if t.props = [] then []
      else lit ",\"required\":[" ++ [chComma].intercalate (t.props.map inQuotes) ++ lit "]") ++
    lit "\x7d\x7d"

def mcpTools : List McpTool :=
  [⟨lit "naitron_status", lit "Core status: service/route counts and event-loop backend.", []⟩,
    ⟨lit "naitron_list_services", lit "List registered services.", []⟩,
    ⟨lit "naitron_list_routes", lit "List registered routes.", []⟩,
    ⟨lit "naitron_add_service", lit "Register and spawn a controller process (takes effect live).",
      [lit "name", lit "bin"]⟩,
    ⟨lit "naitron_add_route", lit "Route a method+path to a service (takes effect live).",
      [lit "method", lit "pattern", lit "service"]⟩,
    ⟨lit "naitron_remove_service", lit "Remove a service.", [lit "name"]⟩]

/-- `TOOLS_JSON`. -/
def toolsJson : Bytes := lit "[" ++ [chComma].intercalate (mcpTools.map McpTool.json) ++ lit "]"

/-- `ntc_json_get` of a pointer that may be NULL. -/
def jsonGet (o : Option NtcJson) (key : Bytes) : Option NtcJson := o.bind fun o => ntcJsonGet o key

/-- `arg_str` into a buffer of `cap` bytes. -/
def argStr (args : Option NtcJson) (key : Bytes) (cap : Nat) : Option Bytes :=
  let s := ntcJsonStr (jsonGet args key)
  if s.length = 0 ∨ cap ≤ s.length then none
  else if s.any fun c => c == chSpace || c == chLf || c == chCr then none
  else some s

/-- Size of the argument buffers `a`, `b` and `c`. -/
def mcpArgCap : Nat := 256

/-- Size of `command`. -/
def mcpCommandCap : Nat := 1024

/-- The first half of `handle_tool_call`: the command, or the text of an
    error.  The buffers are printed with `%s`. -/
def toolCommand (params : Option NtcJson) : Except Bytes Bytes :=
  let name := ntcJsonStr (jsonGet params (lit "name"))
  let args := jsonGet params (lit "arguments")
  if name = lit "naitron_status" then .ok (lit "status")
  else if name = lit "naitron_list_services" then .ok (lit "service-list")
  else if name = lit "naitron_list_routes" then .ok (lit "route-list")
  else if name = lit "naitron_add_service" then
    match argStr args (lit "name") mcpArgCap, argStr args (lit "bin") mcpArgCap with
    | some a, some b =>
        .ok (clip mcpCommandCap (lit "service-add " ++ cstr a ++ chSpace :: cstr b))
    | _, _ => .error (lit "invalid or missing 'name'/'bin'")
  else if name = lit "naitron_add_route" then
    match argStr args (lit "method") mcpArgCap, argStr args (lit "pattern") mcpArgCap,
      argStr args (lit "service") mcpArgCap with
    | some a, some b, some c =>
        .ok (clip mcpCommandCap
          (lit "route-add " ++ cstr a ++ chSpace :: (cstr b ++ chSpace :: cstr c)))
    | _, _, _ => .error (lit "invalid or missing 'method'/'pattern'/'service'")
  else if name = lit "naitron_remove_service" then
    match argStr args (lit "name") mcpArgCap with
    | some a => .ok (clip mcpCommandCap (lit "service-rm " ++ cstr a))
    | none => .error (lit "invalid or missing 'name'")
  else .error (lit "unknown tool")

-- ============================================================================
-- Replies
-- ============================================================================

/-- `write_id`.  Beyond a `long long` the conversion is undefined; the model
    takes the least, as x86-64 does. -/
def writeId : Option NtcJson → Bytes
  | some (.num text) => signedDecimal ((longOf text).getD (-2 ^ 63))
  | some (.str s) =>
      match ntcJsonEscape 256 s with
      | some esc => inQuotes esc
      | none => lit "null"
  | _ => lit "null"

def replyHead (id : Option NtcJson) : Bytes := lit "\x7b\"jsonrpc\":\"2.0\",\"id\":" ++ writeId id

/-- `reply_result`. -/
def replyResult (id : Option NtcJson) (result : Bytes) : Bytes :=
  replyHead id ++ lit ",\"result\":" ++ result ++ lit "\x7d"

/-- `reply_error`. -/
def replyError (id : Option NtcJson) (code : Int) (msg : Bytes) : Bytes :=
  replyHead id ++ lit ",\"error\":\x7b\"code\":" ++ signedDecimal code ++ lit ",\"message\":" ++
    inQuotes msg ++ lit "\x7d\x7d"

/-- `reply_content` of a C string. -/
def replyContent (id : Option NtcJson) (text : Bytes) (isError : Bool) : Bytes :=
  replyHead id ++ lit ",\"result\":\x7b\"content\":[\x7b\"type\":\"text\",\"text\":" ++
    inQuotes ((ntcJsonEscape 16384 text).getD []) ++ lit "\x7d],\"isError\":" ++
    (if isError then lit "true" else lit "false") ++ lit "\x7d\x7d"

-- ============================================================================
-- The handler
-- ============================================================================

/-- The output of an executed command: it may depend on the commands executed
    before. -/
abbrev McpExec := List Bytes → Bytes → Bytes

/-- Without the line ends at its end. -/
def stripLineEnds (s : Bytes) : Bytes :=
  (s.reverse.dropWhile fun c => c == chLf || c == chCr).reverse

/-- Size of `raw`. -/
def mcpRawCap : Nat := 8192

/-- `handle_tool_call`, with the commands that have been executed. -/
def handleToolCall (exec : McpExec) (id params : Option NtcJson) (log : List Bytes) :
    Bytes × List Bytes :=
  match toolCommand params with
  | .error text => (replyContent id text true, log)
  | .ok command =>
      let raw := stripLineEnds (clip mcpRawCap (exec log command))
      (replyContent id raw (decide (raw.take 2 ≠ lit "OK")), log ++ [command])

/-- The text that `ntc_mcp_handle` writes for the root of a message, and the
    commands that it executes. -/
def mcpRespond (exec : McpExec) (root : NtcJson) : Bytes × List Bytes :=
  let method := ntcJsonStr (ntcJsonGet root (lit "method"))
  let id := ntcJsonGet root (lit "id")
  if method = lit "initialize" then
    (replyResult id (lit "\x7b\"protocolVersion\":\"2024-11-05\",\"capabilities\":\x7b\"tools\":" ++
      lit "\x7b\"listChanged\":false\x7d\x7d,\"serverInfo\":\x7b\"name\":\"naitron-c\"," ++
      lit "\"version\":\"0.0.1\"\x7d\x7d"), [])
  else if method = lit "tools/list" then
    (replyResult id (clip 8192 (lit "\x7b\"tools\":" ++ toolsJson ++ lit "\x7d")), [])
  else if method = lit "tools/call" then
    handleToolCall exec id (ntcJsonGet root (lit "params")) []
  else if method = lit "ping" then (replyResult id (lit "\x7b\x7d"), [])
  else if method = lit "notifications/initialized" then ([], [])
  else if id.isSome then (replyError id (-32601) (lit "method not found"), [])
  else ([], [])

/-- `ntc_mcp_handle` with a buffer of `cap` bytes, when its memory is
    available: the reply, and the commands that have been executed. -/
def ntcMcpHandle (exec : McpExec) (msg : Bytes) (cap : Nat) : Bytes × List Bytes :=
  match ntcJsonParse msg with
  | some (.obj keys vals) =>
      let r := mcpRespond exec (.obj keys vals)
      (clip cap r.1, r.2)
  | _ => ([], [])

/-- `incore_mcp_exec`: the line that `exec_control_command` splits. -/
def incoreLine (command : Bytes) : Bytes := clip 1024 command

-- ============================================================================
-- Splitting a line
-- ============================================================================

/-- All tokens of a line. -/
def allTokens (s : Bytes) : List Bytes := commandTokens (s.length + 1) s

theorem strtokR_space (s : Bytes) : strtokR (chSpace :: s) = strtokR s := by
  rw [strtokR, strtokR, List.dropWhile_cons_of_pos (by decide)]

/-- A text without blanks, at the end of the line or in front of a blank. -/
theorem strtokR_token {p : Bytes} (hne : p ≠ []) (hno : chSpace ∉ p) :
    strtokR p = some (p, []) ∧ ∀ rest : Bytes, strtokR (p ++ chSpace :: rest) = some (p, rest) := by
  have hall : ∀ c ∈ p, (c != chSpace) = true := by
    intro c hc
    refine bne_iff_ne.mpr ?_
    rintro rfl
    exact hno hc
  have hskip (rest : Bytes) : (p ++ rest).dropWhile (· == chSpace) = p ++ rest := by
    obtain ⟨c, q, rfl⟩ := List.exists_cons_of_ne_nil hne
    rw [List.cons_append, List.dropWhile_cons_of_neg]
    rw [Bool.not_eq_true, ← Bool.not_eq_true']
    exact hall c List.mem_cons_self
  have hempty (rest : Bytes) : (p ++ rest).isEmpty = false := by
    rw [List.isEmpty_eq_false_iff]
    exact List.append_ne_nil_of_left_ne_nil hne rest
  refine ⟨?_, fun rest => ?_⟩
  · have hskip := hskip []
    have hempty := hempty []
    rw [List.append_nil] at hskip hempty
    rw [strtokR, hskip, hempty, List.takeWhile_eq_self_iff.mpr hall,
      List.dropWhile_eq_nil_iff.mpr hall]
    rfl
  · have htake : (p ++ chSpace :: rest).takeWhile (· != chSpace) = p := by
      rw [List.takeWhile_append_of_pos hall, List.takeWhile_cons_of_neg (by decide),
        List.append_nil]
    have hdrop : (p ++ chSpace :: rest).dropWhile (· != chSpace) = chSpace :: rest := by
      rw [List.dropWhile_append_of_pos hall, List.dropWhile_cons_of_neg (by decide)]
    rw [strtokR, hskip, hempty, htake, hdrop]
    rfl

theorem commandTokens_space (n : Nat) (s : Bytes) :
    commandTokens n (chSpace :: s) = commandTokens n s := by
  cases n with
  | zero => rfl
  | succ n => rw [commandTokens, commandTokens, strtokR_space]

theorem commandTokens_nil (n : Nat) : commandTokens n [] = [] := by
  cases n with
  | zero => rfl
  | succ n => rfl

theorem filter_keep {p : Bytes} (hp : p ≠ []) (ps : List Bytes) :
    (p :: ps).filter (· ≠ []) = p :: ps.filter (· ≠ []) :=
  List.filter_cons_of_pos (by simpa using hp)

theorem intercalate_space_cons (p q : Bytes) (qs : List Bytes) :
    [chSpace].intercalate (p :: q :: qs) = p ++ chSpace :: [chSpace].intercalate (q :: qs) := by
  simp [List.intercalate]

theorem join_one (p : Bytes) : [chSpace].intercalate [p] = p := by
  simp [List.intercalate]

/-- Pieces with a blank between them: the tokens are those that are not
    empty. -/
theorem commandTokens_join {pieces : List Bytes} (hno : ∀ p ∈ pieces, chSpace ∉ p) :
    ∀ {n : Nat}, pieces.length ≤ n →
      commandTokens n ([chSpace].intercalate pieces) = pieces.filter (· ≠ []) := by
  induction pieces with
  | nil =>
      intro n _
      cases n with
      | zero => rfl
      | succ n => rfl
  | cons p ps ih =>
      intro n hn
      have hrest := fun {m : Nat} => ih (fun q hq => hno q (List.mem_cons_of_mem p hq)) (n := m)
      have hpos : 0 < n := hn.trans_lt' (Nat.succ_pos _)
      obtain ⟨n, rfl⟩ : ∃ n', n = n' + 1 := ⟨n - 1, by omega⟩
      have hn := Nat.le_of_succ_le_succ hn
      cases ps with
      | nil =>
          rw [join_one]
          by_cases hp : p = []
          · rw [hp, commandTokens_nil]
            rfl
          · rw [commandTokens, (strtokR_token hp (hno p List.mem_cons_self)).1]
            dsimp only
            rw [commandTokens_nil, filter_keep hp, List.filter_nil]
      | cons q qs =>
          rw [intercalate_space_cons]
          by_cases hp : p = []
          · rw [hp, List.nil_append, commandTokens_space, hrest (Nat.le_succ_of_le hn)]
            rfl
          · rw [commandTokens, (strtokR_token hp (hno p List.mem_cons_self)).2]
            dsimp only
            rw [hrest hn, filter_keep hp]

theorem length_intercalate_ge (pieces : List Bytes) :
    pieces.length ≤ ([chSpace].intercalate pieces).length + 1 := by
  induction pieces with
  | nil => exact Nat.zero_le _
  | cons p ps ih =>
      cases ps with
      | nil => exact Nat.le_add_left 1 _
      | cons q qs =>
          rw [intercalate_space_cons]
          simp only [List.length_append, List.length_cons] at ih ⊢
          omega

/-- `exec_control_command` splits a line of blank-separated pieces into those
    that are not empty. -/
theorem allTokens_join {pieces : List Bytes} (hno : ∀ p ∈ pieces, chSpace ∉ p) :
    allTokens ([chSpace].intercalate pieces) = pieces.filter (· ≠ []) :=
  commandTokens_join hno (length_intercalate_ge pieces)

-- ============================================================================
-- Arguments
-- ============================================================================

theorem zero_notMem_cstr (s : Bytes) : 0 ∉ cstr s := by
  intro h
  have hne := List.mem_takeWhile_imp (show (0 : UInt8) ∈ s.takeWhile (· ≠ 0) from h)
  exact absurd rfl (of_decide_eq_true hne)

theorem cstr_eq_self_iff {s : Bytes} : cstr s = s ↔ 0 ∉ s :=
  ⟨fun h => h ▸ zero_notMem_cstr s, cstr_of_noNul⟩

theorem cstr_front (s : Bytes) : cstr s <+: s := List.takeWhile_prefix _

theorem mem_join {c : UInt8} {pieces : List Bytes} (h : c ∈ [chSpace].intercalate pieces) :
    c = chSpace ∨ ∃ p ∈ pieces, c ∈ p := by
  induction pieces with
  | nil => exact absurd h List.not_mem_nil
  | cons p ps ih =>
      cases ps with
      | nil =>
          rw [join_one] at h
          exact .inr ⟨p, List.mem_cons_self, h⟩
      | cons q qs =>
          rw [intercalate_space_cons] at h
          obtain h | h := List.mem_append.mp h
          · exact .inr ⟨p, List.mem_cons_self, h⟩
          obtain rfl | h := List.mem_cons.mp h
          · exact .inl rfl
          · obtain hspace | ⟨r, hr, hc⟩ := ih h
            · exact .inl hspace
            · exact .inr ⟨r, List.mem_cons_of_mem p hr, hc⟩

theorem length_join_lt {n : Nat} {pieces : List Bytes} (hne : pieces ≠ [])
    (h : ∀ p ∈ pieces, p.length < n) :
    ([chSpace].intercalate pieces).length < pieces.length * n := by
  induction pieces with
  | nil => exact absurd rfl hne
  | cons p ps ih =>
      have hp := h p List.mem_cons_self
      cases ps with
      | nil =>
          rw [join_one, List.length_singleton, Nat.one_mul]
          exact hp
      | cons q qs =>
          have hrest := ih (List.cons_ne_nil q qs) fun r hr => h r (List.mem_cons_of_mem p hr)
          rw [intercalate_space_cons, List.length_append, List.length_cons (a := p), Nat.succ_mul]
          rw [List.length_cons (a := chSpace)]
          omega

/-- An argument that `arg_str` has accepted. -/
structure ArgOk (a : Bytes) : Prop where
  nonempty : a ≠ []
  fits : a.length < mcpArgCap
  noSpace : chSpace ∉ a

theorem argStr_some {args : Option NtcJson} {key a : Bytes} (h : argStr args key mcpArgCap = some a) :
    a = ntcJsonStr (jsonGet args key) ∧ ArgOk a := by
  rw [argStr] at h
  split at h
  · exact absurd h.symm (Option.some_ne_none a)
  next hlen =>
    split at h
    · exact absurd h.symm (Option.some_ne_none a)
    next hany =>
      obtain rfl := Option.some.inj h
      refine ⟨rfl, fun hnil => hlen (.inl (by rw [hnil]; rfl)), Nat.lt_of_not_le fun hcap =>
        hlen (.inr hcap), fun hmem => hany ?_⟩
      exact List.any_eq_true.mpr ⟨chSpace, hmem, rfl⟩

/-- A tool that writes, the verb of its command and its arguments in order. -/
structure ToolVerb where
  tool : Bytes
  verb : Bytes
  keys : List Bytes
deriving DecidableEq

def writingTools : List ToolVerb :=
  [⟨lit "naitron_add_service", lit "service-add", [lit "name", lit "bin"]⟩,
    ⟨lit "naitron_add_route", lit "route-add", [lit "method", lit "pattern", lit "service"]⟩,
    ⟨lit "naitron_remove_service", lit "service-rm", [lit "name"]⟩]

/-- The strings at some keys. -/
def argStrings (args : Option NtcJson) (keys : List Bytes) : List Bytes :=
  keys.map fun key => ntcJsonStr (jsonGet args key)

/-- The line that is printed for a verb and arguments. -/
def printedLine (verb : Bytes) (values : List Bytes) : Bytes :=
  [chSpace].intercalate (verb :: values.map cstr)

/-- A verb, and no more arguments than the buffers are for. -/
structure LineOk (verb : Bytes) (values : List Bytes) : Prop where
  verb_ne : verb ≠ []
  verb_fits : verb.length < mcpArgCap
  verb_noSpace : chSpace ∉ verb
  verb_noNul : 0 ∉ verb
  count : values.length ≤ 3
  values : ∀ a ∈ values, ArgOk a

namespace LineOk

variable {verb : Bytes} {values : List Bytes}

/-- The line fits the buffer of the command. -/
theorem clip_line (h : LineOk verb values) :
    clip mcpCommandCap (printedLine verb values) = printedLine verb values := by
  refine clip_of_fits (fun hmem => ?_) ?_
  · obtain hspace | ⟨p, hp, hzero⟩ := mem_join hmem
    · exact absurd hspace (by decide)
    obtain rfl | hp := List.mem_cons.mp hp
    · exact h.verb_noNul hzero
    · obtain ⟨a, -, rfl⟩ := List.mem_map.mp hp
      exact zero_notMem_cstr a hzero
  · have hlen := length_join_lt (n := mcpArgCap) (List.cons_ne_nil verb (values.map cstr))
      fun p hp => by
        obtain rfl | hp := List.mem_cons.mp hp
        · exact h.verb_fits
        · obtain ⟨a, ha, rfl⟩ := List.mem_map.mp hp
          exact (cstr_front a).length_le.trans_lt (h.values a ha).fits
    have hcount := h.count
    rw [List.length_cons, List.length_map] at hlen
    refine hlen.trans_le ((Nat.mul_le_mul_right mcpArgCap (Nat.succ_le_succ hcount)).trans ?_)
    decide

/-- Its tokens are the verb and the arguments up to their first NUL, without
    those that are empty then. -/
theorem allTokens_line (h : LineOk verb values) :
    allTokens (printedLine verb values) = verb :: (values.map cstr).filter (· ≠ []) := by
  rw [printedLine, allTokens_join, filter_keep h.verb_ne]
  intro p hp
  obtain rfl | hp := List.mem_cons.mp hp
  · exact h.verb_noSpace
  · obtain ⟨a, ha, rfl⟩ := List.mem_map.mp hp
    exact fun hmem => (h.values a ha).noSpace ((cstr_front a).subset hmem)

end LineOk

theorem filter_cstr_iff {values : List Bytes} (hne : ∀ a ∈ values, a ≠ []) :
    (values.map cstr).filter (· ≠ []) = values ↔ ∀ a ∈ values, 0 ∉ a := by
  induction values with
  | nil => exact ⟨fun _ a ha => absurd ha List.not_mem_nil, fun _ => rfl⟩
  | cons v vs ih =>
      have ih := ih fun a ha => hne a (List.mem_cons_of_mem v ha)
      rw [List.map_cons, List.forall_mem_cons, ← ih, ← cstr_eq_self_iff]
      by_cases hv : cstr v = []
      · refine iff_of_false (fun h => ?_) fun h => hne v List.mem_cons_self (h.1.symm.trans hv)
        have hdrop : (cstr v :: vs.map cstr).filter (· ≠ []) = (vs.map cstr).filter (· ≠ []) := by
          rw [hv]
          rfl
        have hlen := List.length_filter_le (fun a : Bytes => decide (a ≠ [])) (vs.map cstr)
        rw [← hdrop, h, List.length_map, List.length_cons] at hlen
        omega
      · rw [filter_keep hv, List.cons.injEq]

-- ============================================================================
-- The executed command
-- ============================================================================

/-- A message that calls a tool, with these arguments. -/
def Calls (msg tool : Bytes) (args : Option NtcJson) : Prop :=
  ∃ root, ntcJsonParse msg = some root ∧ ntcJsonStr (ntcJsonGet root (lit "method")) = lit "tools/call" ∧
    ntcJsonStr (jsonGet (ntcJsonGet root (lit "params")) (lit "name")) = tool ∧
    jsonGet (ntcJsonGet root (lit "params")) (lit "arguments") = args

/-- The command of a tool that writes is its line. -/
theorem toolCommand_ok {params : Option NtcJson} {t : ToolVerb} (ht : t ∈ writingTools)
    (hname : ntcJsonStr (jsonGet params (lit "name")) = t.tool) {cmd : Bytes}
    (h : toolCommand params = .ok cmd) :
    LineOk t.verb (argStrings (jsonGet params (lit "arguments")) t.keys) ∧
      cmd = printedLine t.verb (argStrings (jsonGet params (lit "arguments")) t.keys) := by
  rw [toolCommand, hname] at h
  generalize jsonGet params (lit "arguments") = args at h ⊢
  have hclip {verb : Bytes} {values : List Bytes} (hok : LineOk verb values)
      (hcmd : clip mcpCommandCap (printedLine verb values) = cmd) :
      LineOk verb values ∧ cmd = printedLine verb values :=
    ⟨hok, by rw [← hcmd, hok.clip_line]⟩
  simp only [writingTools, List.mem_cons, List.not_mem_nil, or_false] at ht
  obtain rfl | rfl | rfl := ht
  · rw [if_neg (by decide), if_neg (by decide), if_neg (by decide), if_pos rfl] at h
    split at h
    next a b ha hb =>
      obtain ⟨rfl, haok⟩ := argStr_some ha
      obtain ⟨rfl, hbok⟩ := argStr_some hb
      refine hclip ⟨by decide, by decide, by decide, by decide, Nat.le_of_ble_eq_true rfl, ?_⟩ ?_
      · simp only [argStrings, List.map_cons, List.map_nil, List.forall_mem_cons]
        exact ⟨haok, hbok, fun a ha => absurd ha List.not_mem_nil⟩
      · rw [← Except.ok.inj h]
        simp only [printedLine, argStrings, List.map_cons, List.map_nil, intercalate_space_cons,
          join_one]
        rfl
    · cases h
  · rw [if_neg (by decide), if_neg (by decide), if_neg (by decide), if_neg (by decide),
      if_pos rfl] at h
    split at h
    next a b c ha hb hc =>
      obtain ⟨rfl, haok⟩ := argStr_some ha
      obtain ⟨rfl, hbok⟩ := argStr_some hb
      obtain ⟨rfl, hcok⟩ := argStr_some hc
      refine hclip ⟨by decide, by decide, by decide, by decide, Nat.le_of_ble_eq_true rfl, ?_⟩ ?_
      · simp only [argStrings, List.map_cons, List.map_nil, List.forall_mem_cons]
        exact ⟨haok, hbok, hcok, fun a ha => absurd ha List.not_mem_nil⟩
      · rw [← Except.ok.inj h]
        simp only [printedLine, argStrings, List.map_cons, List.map_nil, intercalate_space_cons,
          join_one]
        rfl
    · cases h
  · rw [if_neg (by decide), if_neg (by decide), if_neg (by decide), if_neg (by decide),
      if_neg (by decide), if_pos rfl] at h
    split at h
    next a ha =>
      obtain ⟨rfl, haok⟩ := argStr_some ha
      refine hclip ⟨by decide, by decide, by decide, by decide, Nat.le_of_ble_eq_true rfl, ?_⟩ ?_
      · simp only [argStrings, List.map_cons, List.map_nil, List.forall_mem_cons]
        exact ⟨haok, fun a ha => absurd ha List.not_mem_nil⟩
      · rw [← Except.ok.inj h]
        simp only [printedLine, argStrings, List.map_cons, List.map_nil, intercalate_space_cons,
          join_one]
        rfl
    · cases h

/-- A command is executed for a tool call only, and then it is one. -/
theorem mcpRespond_log (exec : McpExec) (root : NtcJson) :
    (mcpRespond exec root).2 = [] ∨
      ∃ cmd, (mcpRespond exec root).2 = [cmd] ∧
        toolCommand (ntcJsonGet root (lit "params")) = .ok cmd := by
  rw [mcpRespond]
  split
  · exact .inl rfl
  split
  · exact .inl rfl
  split
  · rw [handleToolCall]
    split
    · exact .inl rfl
    next cmd hcmd => exact .inr ⟨cmd, rfl, hcmd⟩
  split
  · exact .inl rfl
  split
  · exact .inl rfl
  split
  · exact .inl rfl
  · exact .inl rfl

theorem ntcMcpHandle_log (exec : McpExec) (msg : Bytes) (cap : Nat) :
    (ntcMcpHandle exec msg cap).2 = [] ∨
      ∃ root cmd, ntcJsonParse msg = some root ∧ (ntcMcpHandle exec msg cap).2 = [cmd] ∧
        toolCommand (ntcJsonGet root (lit "params")) = .ok cmd := by
  rw [ntcMcpHandle]
  split
  next keys vals hparse =>
    obtain hnone | ⟨cmd, hlog, hcmd⟩ := mcpRespond_log exec (.obj keys vals)
    · exact .inl hnone
    · exact .inr ⟨_, cmd, hparse, hlog, hcmd⟩
  · exact .inl rfl

/-- A message runs at most one command, and the command of a tool that writes
    is split into the tool's verb and the argument strings of the message
    exactly if there is no NUL in them. -/
theorem ntcMcpHandle_arguments (exec : McpExec) (msg : Bytes) (cap : Nat) :
    (ntcMcpHandle exec msg cap).2.length ≤ 1 ∧
    ∀ t ∈ writingTools, ∀ args, Calls msg t.tool args →
      ∀ cmd ∈ (ntcMcpHandle exec msg cap).2,
        (allTokens (incoreLine cmd) = t.verb :: argStrings args t.keys ↔
          ∀ a ∈ argStrings args t.keys, 0 ∉ a) := by
  obtain hnone | ⟨root, command, hparse, hlog, hcommand⟩ := ntcMcpHandle_log exec msg cap
  · rw [hnone]
    exact ⟨Nat.zero_le 1, fun _ _ _ _ cmd hcmd => absurd hcmd List.not_mem_nil⟩
  rw [hlog]
  refine ⟨le_rfl, ?_⟩
  rintro t ht args ⟨root', hparse', -, hname, rfl⟩ cmd hcmd
  obtain rfl := Option.some.inj (hparse.symm.trans hparse')
  obtain rfl := List.mem_singleton.mp hcmd
  obtain ⟨hline, rfl⟩ := toolCommand_ok ht hname hcommand
  rw [incoreLine, show (1024 : Nat) = mcpCommandCap from rfl, hline.clip_line, hline.allTokens_line,
    List.cons.injEq, filter_cstr_iff fun a ha => (hline.values a ha).nonempty]
  exact ⟨fun h => h.2, fun h => ⟨rfl, h⟩⟩

/-- A call that adds a service, with these texts between the quotes. -/
def addServiceMessage (name bin : Bytes) : Bytes :=
  lit "\x7b\"method\":\"tools/call\",\"id\":1,\"params\":\x7b\"name\":\"naitron_add_service\"," ++
    lit "\"arguments\":\x7b\"name\":\"" ++ name ++ lit "\",\"bin\":\"" ++ bin ++ lit "\"\x7d\x7d\x7d"

/-- The arguments that the message carries. -/
def addServiceArgs (name bin : Bytes) : Option NtcJson :=
  jsonGet (ntcJsonGet ((ntcJsonParse (addServiceMessage name bin)).getD .null) (lit "params"))
    (lit "arguments")

theorem calls_addService {name bin : Bytes}
    (hparse : (ntcJsonParse (addServiceMessage name bin)).isSome = true)
    (hmethod : ntcJsonStr (ntcJsonGet ((ntcJsonParse (addServiceMessage name bin)).getD .null)
      (lit "method")) = lit "tools/call")
    (htool : ntcJsonStr (jsonGet (ntcJsonGet ((ntcJsonParse (addServiceMessage name bin)).getD .null)
      (lit "params")) (lit "name")) = lit "naitron_add_service") :
    Calls (addServiceMessage name bin) (lit "naitron_add_service") (addServiceArgs name bin) := by
  obtain ⟨root, hroot⟩ := Option.isSome_iff_exists.mp hparse
  rw [hroot] at hmethod htool
  refine ⟨root, hroot, hmethod, htool, ?_⟩
  rw [addServiceArgs, hroot]
  rfl

/-- One command is run, and it is split into the tool's verb and the two
    strings. -/
theorem ntcMcpHandle_arguments_add :
    ∃ cmd, (ntcMcpHandle (fun _ _ => lit "OK service added\n")
        (addServiceMessage (lit "api") (lit "/bin/api")) 32768).2 = [cmd] ∧
      allTokens (incoreLine cmd) = [lit "service-add", lit "api", lit "/bin/api"] := by
  have hstrings : argStrings (addServiceArgs (lit "api") (lit "/bin/api")) [lit "name", lit "bin"] =
      [lit "api", lit "/bin/api"] := by decide +kernel
  have hcalls : Calls (addServiceMessage (lit "api") (lit "/bin/api")) (lit "naitron_add_service")
      (addServiceArgs (lit "api") (lit "/bin/api")) :=
    calls_addService (by decide +kernel) (by decide +kernel) (by decide +kernel)
  have hlog : (ntcMcpHandle (fun _ _ => lit "OK service added\n")
      (addServiceMessage (lit "api") (lit "/bin/api")) 32768).2 =
        [lit "service-add api /bin/api"] := by decide +kernel
  obtain ⟨-, htools⟩ := ntcMcpHandle_arguments (fun _ _ => lit "OK service added\n")
    (addServiceMessage (lit "api") (lit "/bin/api")) 32768
  have htokens := htools _ List.mem_cons_self _ hcalls (lit "service-add api /bin/api")
    (hlog ▸ List.mem_cons_self)
  dsimp only at htokens
  rw [hstrings] at htokens
  exact ⟨_, hlog, htokens.mpr (by decide)⟩

/-- A NUL ends the name: the command adds another service. -/
theorem allTokens_addService_nul :
    ∃ args, Calls (addServiceMessage (lit "a\\u0000b") (lit "/bin/api")) (lit "naitron_add_service") args ∧
      argStrings args [lit "name", lit "bin"] = [[97, 0, 98], lit "/bin/api"] ∧
      ∃ cmd ∈ (ntcMcpHandle (fun _ _ => lit "OK service added\n")
          (addServiceMessage (lit "a\\u0000b") (lit "/bin/api")) 32768).2,
        allTokens (incoreLine cmd) = [lit "service-add", lit "a", lit "/bin/api"] := by
  refine ⟨_, calls_addService (by decide +kernel) (by decide +kernel) (by decide +kernel),
    by decide +kernel, lit "service-add a /bin/api", by decide +kernel, by decide +kernel⟩

end Naitron
