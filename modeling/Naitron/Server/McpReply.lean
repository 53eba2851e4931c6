/-
  Naitron.Server.McpReply

  The replies of the MCP server as JSON.

  `ntc_mcp_handle` prints a reply piece by piece, with `fprintf`.  Each reply
  is the text of a tree, `mcpTree`; the trees that are printed so come back
  from the parser as they are.
-/

import Naitron.JwtExpiry
import Naitron.Server.ControlCall
import Naitron.Server.Mcp

namespace Naitron

-- ============================================================================
-- Trees that are printed
-- ============================================================================

variable {fmtG : WithBot (WithTop ℚ) → Bytes}

mutual

/-- The value of the text of a tree. -/
def JsonTree.value (fmtG : WithBot (WithTop ℚ) → Bytes) : JsonTree → NtcJson
  | .null => .null
  | .bool b => .bool b
  | .num d => .num (emitNum fmtG d)
  | .str s => .str s
  | .arr items => .arr (JsonTree.values fmtG items)
  | .obj keys vals => .obj keys (JsonTree.values fmtG vals)

def JsonTree.values (fmtG : WithBot (WithTop ℚ) → Bytes) : List JsonTree → List NtcJson
  | [] => []
  | v :: vs => v.value fmtG :: JsonTree.values fmtG vs

end

/-- A tree of at most this many levels whose lists are kept and whose numbers
    are numbers of the RFC. -/
def JsonTree.Printed (fmtG : WithBot (WithTop ℚ) → Bytes) : Nat → JsonTree → Prop
  | 0, _ => False
  | _ + 1, .num d => JsonNumber (emitNum fmtG d) ∧ (emitNum fmtG d).length ≤ 63
  | n + 1, .arr items => items.length ≤ ntcJsonMaxMembers ∧ ∀ v ∈ items, v.Printed fmtG n
  | n + 1, .obj keys vals =>
      keys.length = vals.length ∧ vals.length ≤ ntcJsonMaxMembers ∧ ∀ v ∈ vals, v.Printed fmtG n
  | _ + 1, _ => True

theorem JsonTree.values_eq : ∀ vs : List JsonTree,
    JsonTree.values fmtG vs = vs.map (JsonTree.value fmtG)
  | [] => rfl
  | v :: vs => by rw [JsonTree.values, values_eq vs, List.map_cons]

theorem pieceOf_strict (c : UInt8) : (pieceOf c).Strict := by
  have hraw : ∀ n : Fin 256, pieceOf (UInt8.ofNat n.val) = .raw (UInt8.ofNat n.val) →
      (32 : UInt8) ≤ UInt8.ofNat n.val := by decide +kernel
  cases hp : pieceOf c with
  | raw b =>
      have hc := hraw ⟨c.toNat, c.toNat_lt⟩
      rw [UInt8.ofNat_toNat] at hc
      have hbytes : (pieceOf c).code = [c] := (pieceOf_spec c).2.1
      rw [hp] at hbytes
      obtain rfl : b = c := (List.cons.inj hbytes).1
      exact hc hp
  | escape e => trivial
  | unit a b c d => trivial

namespace JsonTree.Printed

theorem shaped {n : Nat} : ∀ {v : JsonTree}, v.Printed fmtG n → v.Shaped fmtG n := by
  induction n with
  | zero => exact fun h => h.elim
  | succ n ih =>
      intro v h
      cases v with
      | null | bool | str => trivial
      | num d => exact h.1.scanned
      | arr items => exact fun v hv => ih (h.2 v hv)
      | obj keys vals => exact ⟨h.1, fun v hv => ih (h.2.2 v hv)⟩

theorem strict {n : Nat} : ∀ {v : JsonTree}, v.Printed fmtG n → (v.doc fmtG).Strict := by
  have hpieces : ∀ s : Bytes, ∀ p ∈ piecesOf s, p.Strict := by
    intro s p hp
    obtain ⟨c, -, rfl⟩ := List.mem_map.mp hp
    exact pieceOf_strict c
  induction n with
  | zero => exact fun h => h.elim
  | succ n ih =>
      intro v h
      cases v with
      | null | bool => trivial
      | num d => exact h.1
      | str s => exact hpieces s
      | arr items =>
          refine ⟨trivial, JsonDoc.allOf_of_forall fun doc hdoc => ?_⟩
          rw [JsonTree.docs_eq] at hdoc
          obtain ⟨v, hv, rfl⟩ := List.mem_map.mp hdoc
          exact ih (h.2 v hv)
      | obj keys vals =>
          refine ⟨fun key hkey => ?_, JsonDoc.allOf_of_forall fun doc hdoc => ?_⟩
          · obtain ⟨s, -, rfl⟩ := List.mem_map.mp hkey
            exact hpieces s
          · rw [JsonTree.docs_eq] at hdoc
            obtain ⟨v, hv, rfl⟩ := List.mem_map.mp hdoc
            exact ih (h.2.2 v hv)

theorem code {n : Nat} : ∀ {v : JsonTree}, v.Printed fmtG n → (v.doc fmtG).code = v.value fmtG := by
  have hlist : ∀ {vs : List JsonTree}, vs.length ≤ ntcJsonMaxMembers →
      (∀ v ∈ vs, (v.doc fmtG).code = v.value fmtG) →
      (JsonDoc.codes (JsonTree.docs fmtG vs)).take ntcJsonMaxMembers = JsonTree.values fmtG vs := by
    intro vs hmax h
    rw [JsonDoc.codes_eq, JsonTree.docs_eq, List.map_map, JsonTree.values_eq,
      List.take_of_length_le (by rw [List.length_map]; exact hmax)]
    exact List.map_congr_left h
  induction n with
  | zero => exact fun h => h.elim
  | succ n ih =>
      intro v h
      cases v with
      | null | bool => rfl
      | num d => exact congrArg NtcJson.num (List.take_of_length_le h.2)
      | str s => exact congrArg NtcJson.str (piecesOf_code s)
      | arr items => exact congrArg NtcJson.arr (hlist h.1 fun v hv => ih (h.2 v hv))
      | obj keys vals =>
          obtain ⟨hlen, hmax, hvals⟩ := h
          have hkeys : (keys.map piecesOf).map codeString = keys := by
            rw [List.map_map]
            exact (List.map_congr_left fun key _ => piecesOf_code key).trans (List.map_id' keys)
          rw [JsonTree.doc, JsonDoc.code, JsonTree.value, hkeys,
            List.take_of_length_le (by omega), hlist hmax fun v hv => ih (hvals v hv)]

/-- Its text is a JSON text, which the parser reads back. -/
theorem text {v : JsonTree} (h : v.Printed fmtG ntcJsonMaxDepth) :
    IsJsonText (v.text fmtG) ∧ ntcJsonParse (v.text fmtG) = some (v.value fmtG) := by
  have htext : TextOf ntcJsonMaxDepth (v.text fmtG) (v.doc fmtG) :=
    ⟨[], v.text fmtG, [], isWs_nil, isWs_nil, h.shaped.derives, by
      rw [List.nil_append, List.append_nil]⟩
  exact ⟨⟨_, _, htext, h.strict⟩, by rw [htext.parse, h.code]⟩

end JsonTree.Printed

-- ============================================================================
-- Numbers
-- ============================================================================

/-- Every integer as `%lld` prints it. -/
def fmtLong : WithBot (WithTop ℚ) → Bytes
  | some (some q) => signedDecimal (truncate q)
  | _ => []

theorem emitNum_long (z : Int) : emitNum fmtLong (wholeDouble z) = signedDecimal z := by
  rw [wholeDouble, emitNum, fmtLong, truncate_intCast, ite_self]

theorem jsonInt_decimal (n : Nat) : JsonInt (decimal n) := by
  have hfirst : ∀ m : Nat, 0 < m → ∃ c s, decimal m = c :: s ∧ c ≠ 48 := by
    intro m
    induction m using Nat.strong_induction_on with
    | _ m ih =>
        intro hm
        rw [decimal_eq_if]
        split_ifs with hlt
        · have hdigit : ∀ d < 10, 0 < d → UInt8.ofNat (48 + d) ≠ 48 := by decide
          exact ⟨_, [], rfl, hdigit m hlt hm⟩
        · obtain ⟨c, s, hcs, hc⟩ := ih (m / 10) (by omega) (by omega)
          exact ⟨c, s ++ [UInt8.ofNat (48 + m % 10)], by rw [hcs]; rfl, hc⟩
  rcases Nat.eq_zero_or_pos n with rfl | hn
  · exact .zero
  · obtain ⟨c, s, hcs, hc⟩ := hfirst n hn
    have hdigits := (decimal_spec n).2.1
    rw [hcs] at hdigits ⊢
    exact .digits (hdigits c List.mem_cons_self) hc
      fun d hd => hdigits d (List.mem_cons_of_mem c hd)

theorem jsonNumber_signedDecimal (z : Int) : JsonNumber (signedDecimal z) := by
  have hint := jsonInt_decimal z.natAbs
  have hnumber (sign : Bytes) (hsign : sign = [] ∨ sign = [45]) :
      JsonNumber (sign ++ decimal z.natAbs) := by
    have hmk := JsonNumber.mk hsign hint .none .none
    rwa [List.append_nil, List.append_nil] at hmk
  rw [signedDecimal]
  split_ifs
  · exact hnumber [45] (.inr rfl)
  · exact hnumber [] (.inl rfl)


/-- A number of 63 characters at most, the room that the parser has for one. -/
theorem length_signedDecimal_le {z : Int} (hz : z.natAbs < 10 ^ 62) :
    (signedDecimal z).length ≤ 63 := by
  have hlen : (decimal z.natAbs).length ≤ 62 := by
    rw [decimal, List.length_map]
    exact (Nat.length_toDigits_le_iff (by decide) (by decide)).mpr hz
  rw [signedDecimal]
  split_ifs
  · rw [List.length_cons]
    exact Nat.succ_le_succ hlen
  · exact hlen.trans (by decide)

theorem natAbs_longOf (text : Bytes) : ((longOf text).getD (-2 ^ 63)).natAbs < 10 ^ 62 := by
  cases h : longOf text with
  | none => decide
  | some z =>
      have hz : -2 ^ 63 ≤ z ∧ z < 2 ^ 63 := by
        rw [longOf] at h
        split at h
        · obtain rfl := Option.some.inj h
          decide
        · dsimp only at h
          split at h
          next hrange => exact Option.some.inj h ▸ hrange
          next => exact absurd h.symm (Option.some_ne_none z)
      rw [Option.getD_some]
      omega

-- ============================================================================
-- The trees of the replies
-- ============================================================================

/-- An `id`: a number is cut to a `long long`, a string that does not fit the
    buffer is lost. -/
def mcpIdTree : Option NtcJson → JsonTree
  | some (.num text) => .num (wholeDouble ((longOf text).getD (-2 ^ 63)))
  | some (.str s) => if (escapeBytes s).length < 256 then .str s else .null
  | _ => .null

def replyTree (id : Option NtcJson) (key : Bytes) (body : JsonTree) : JsonTree :=
  .obj [lit "jsonrpc", lit "id", key] [.str (lit "2.0"), mcpIdTree id, body]

/-- An answer of a tool; a text that does not fit the buffer is lost. -/
def contentTree (text : Bytes) (isError : Bool) : JsonTree :=
  .obj [lit "content", lit "isError"]
    [.arr [.obj [lit "type", lit "text"]
      [.str (lit "text"), .str (if (escapeBytes text).length < 16384 then text else [])]],
      .bool isError]

def errorTree (code : Int) (msg : Bytes) : JsonTree :=
  .obj [lit "code", lit "message"] [.num (wholeDouble code), .str msg]

def initializeTree : JsonTree :=
  .obj [lit "protocolVersion", lit "capabilities", lit "serverInfo"]
    [.str (lit "2024-11-05"),
      .obj [lit "tools"] [.obj [lit "listChanged"] [.bool false]],
      .obj [lit "name", lit "version"] [.str (lit "naitron-c"), .str (lit "0.0.1")]]

def McpTool.schemaTree (t : McpTool) : JsonTree :=
  let props := .obj t.props (t.props.map fun _ => .obj [lit "type"] [.str (lit "string")])
  if t.props = [] then .obj [lit "type", lit "properties"] [.str (lit "object"), props]
  else .obj [lit "type", lit "properties", lit "required"]
    [.str (lit "object"), props, .arr (t.props.map .str)]

def McpTool.tree (t : McpTool) : JsonTree :=
  .obj [lit "name", lit "description", lit "inputSchema"]
    [.str t.name, .str t.description, t.schemaTree]

def toolsTree : JsonTree := .obj [lit "tools"] [.arr (mcpTools.map McpTool.tree)]

/-- The answer of a tool call: an error of the request, or what the command has
    put out. -/
def callTree (exec : McpExec) (params : Option NtcJson) : JsonTree :=
  match toolCommand params with
  | .error text => contentTree text true
  | .ok command =>
      let raw := stripLineEnds (clip mcpRawCap (exec [] command))
      contentTree raw (decide (raw.take 2 ≠ lit "OK"))

/-- The reply to a message, if it has one. -/
def mcpTree (exec : McpExec) (root : NtcJson) : Option JsonTree :=
  let method := ntcJsonStr (ntcJsonGet root (lit "method"))
  let id := ntcJsonGet root (lit "id")
  if method = lit "initialize" then some (replyTree id (lit "result") initializeTree)
  else if method = lit "tools/list" then some (replyTree id (lit "result") toolsTree)
  else if method = lit "tools/call" then
    some (replyTree id (lit "result") (callTree exec (ntcJsonGet root (lit "params"))))
  else if method = lit "ping" then some (replyTree id (lit "result") (.obj [] []))
  else if method = lit "notifications/initialized" then none
  else if id.isSome then
    some (replyTree id (lit "error") (errorTree (-32601) (lit "method not found")))
  else none

-- ============================================================================
-- What is printed is the text of the tree
-- ============================================================================

/-- The members of an object as they are printed, without its braces. -/
def memberText (fmtG : WithBot (WithTop ℚ) → Bytes) (first : Bool) (keys : List Bytes)
    (vals : List JsonTree) : Bytes :=
  (JsonTree.memberTokens fmtG first keys vals).flatMap EmitToken.bytes

theorem quotedTokens_text (s : Bytes) :
    (quotedTokens s).flatMap EmitToken.bytes = inQuotes (escapeBytes s) := rfl

theorem text_str (s : Bytes) : (JsonTree.str s).text fmtG = inQuotes (escapeBytes s) := rfl

theorem text_num (z : Int) : (JsonTree.num (wholeDouble z)).text fmtLong = signedDecimal z := by
  rw [JsonTree.text, JsonTree.tokens, emitNum_long]
  exact List.append_nil _

theorem text_bool (b : Bool) :
    (JsonTree.bool b).text fmtG = if b then lit "true" else lit "false" := List.append_nil _

theorem text_singleton (v : JsonTree) :
    (JsonTree.arr [v]).text fmtG = 91 :: (v.text fmtG ++ [93]) := by
  simp only [JsonTree.text, JsonTree.tokens, JsonTree.itemTokens, if_true, List.nil_append,
    List.append_nil, List.flatMap_cons, List.flatMap_append, List.flatMap_nil, EmitToken.bytes,
    List.singleton_append]

theorem text_obj (keys : List Bytes) (vals : List JsonTree) :
    (JsonTree.obj keys vals).text fmtG = 123 :: (memberText fmtG true keys vals ++ [125]) := by
  simp only [JsonTree.text, JsonTree.tokens, memberText, List.flatMap_cons, List.flatMap_append,
    List.flatMap_nil, EmitToken.bytes, List.singleton_append, List.append_nil]

theorem memberText_nil (first : Bool) : memberText fmtG first [] [] = [] := rfl

theorem memberText_cons (first : Bool) (key : Bytes) (keys : List Bytes) (v : JsonTree)
    (vals : List JsonTree) :
    memberText fmtG first (key :: keys) (v :: vals) =
      (if first then [] else [chComma]) ++ (inQuotes (escapeBytes key) ++ chColon ::
        (v.text fmtG ++ memberText fmtG false keys vals)) := by
  cases first with
  | true | false =>
      simp only [JsonTree.text, memberText, JsonTree.memberTokens, quotedTokens_text,
        List.flatMap_cons, List.flatMap_append, EmitToken.bytes, if_true, List.singleton_append,
        List.nil_append, Bool.false_eq_true, if_false]

theorem writeId_eq (id : Option NtcJson) : writeId id = (mcpIdTree id).text fmtLong := by
  cases id with
  | none => rfl
  | some j =>
      cases j with
      | null | bool | arr | obj => rfl
      | num text => exact (text_num _).symm
      | str s =>
          rw [writeId, ntcJsonEscape, mcpIdTree]
          split_ifs
          · rfl
          · rfl

/-- A reply around the text of its body. -/
theorem replyTree_text (id : Option NtcJson) {key : Bytes} (body : JsonTree)
    (hkey : escapeBytes key = key) :
    (replyTree id key body).text fmtLong =
      replyHead id ++ (lit ",\"" ++ (key ++ (lit "\":" ++ (body.text fmtLong ++ [125])))) := by
  have hhead : lit "\x7b\"jsonrpc\":\"2.0\",\"id\":" =
      123 :: (inQuotes (escapeBytes (lit "jsonrpc")) ++ chColon ::
        (inQuotes (escapeBytes (lit "2.0")) ++ chComma ::
          (inQuotes (escapeBytes (lit "id")) ++ [chColon]))) := by decide
  have hopen : lit ",\"" = [chComma, chQuote] := by decide
  have hclose : lit "\":" = [chQuote, chColon] := by decide
  rw [replyTree, replyHead, writeId_eq, text_obj, memberText_cons, memberText_cons,
    memberText_cons, memberText_nil, text_str, hhead, hopen, hclose, hkey]
  simp only [inQuotes, if_true, Bool.false_eq_true, if_false, List.nil_append, List.append_nil,
    List.cons_append, List.append_assoc]

theorem replyResult_eq (id : Option NtcJson) (body : JsonTree) :
    replyResult id (body.text fmtLong) = (replyTree id (lit "result") body).text fmtLong := by
  have hkey : lit ",\"result\":" = lit ",\"" ++ (lit "result" ++ lit "\":") := by decide
  have hclose : lit "\x7d" = [125] := by decide
  rw [replyTree_text id body (by decide), replyResult, hkey, hclose]
  simp only [List.append_assoc]

theorem replyError_eq (id : Option NtcJson) (code : Int) {msg : Bytes}
    (hmsg : escapeBytes msg = msg) :
    replyError id code msg = (replyTree id (lit "error") (errorTree code msg)).text fmtLong := by
  have hkey : lit ",\"error\":\x7b\"code\":" = lit ",\"" ++ (lit "error" ++ (lit "\":" ++
      123 :: (inQuotes (escapeBytes (lit "code")) ++ [chColon]))) := by decide
  have hmessage : lit ",\"message\":" =
      chComma :: (inQuotes (escapeBytes (lit "message")) ++ [chColon]) := by decide
  have hclose : lit "\x7d\x7d" = [125, 125] := by decide
  rw [replyTree_text id _ (by decide), replyError, hkey, hmessage, hclose, errorTree, text_obj,
    memberText_cons, memberText_cons, memberText_nil, text_num, text_str, hmsg]
  simp only [if_true, Bool.false_eq_true, if_false, List.nil_append, List.append_nil,
    List.cons_append, List.append_assoc]

theorem replyContent_eq (id : Option NtcJson) (text : Bytes) (isError : Bool) :
    replyContent id text isError =
      (replyTree id (lit "result") (contentTree text isError)).text fmtLong := by
  have hescape : (ntcJsonEscape 16384 text).getD [] =
      escapeBytes (if (escapeBytes text).length < 16384 then text else []) := by
    rw [ntcJsonEscape]
    split_ifs
    · rfl
    · rfl
  have hopen : lit ",\"result\":\x7b\"content\":[\x7b\"type\":\"text\",\"text\":" =
      lit ",\"" ++ (lit "result" ++ (lit "\":" ++
        123 :: (inQuotes (escapeBytes (lit "content")) ++ chColon :: 91 :: 123 ::
          (inQuotes (escapeBytes (lit "type")) ++ chColon ::
            (inQuotes (escapeBytes (lit "text")) ++ chComma ::
              (inQuotes (escapeBytes (lit "text")) ++ [chColon])))))) := by decide
  have hmiddle : lit "\x7d],\"isError\":" =
      125 :: 93 :: chComma :: (inQuotes (escapeBytes (lit "isError")) ++ [chColon]) := by decide
  have hclose : lit "\x7d\x7d" = [125, 125] := by decide
  rw [replyTree_text id _ (by decide), replyContent, hescape, hopen, hmiddle, hclose, contentTree,
    text_obj, memberText_cons, memberText_cons, memberText_nil, text_singleton, text_obj,
    memberText_cons, memberText_cons, memberText_nil, text_str, text_str, text_bool]
  simp only [if_true, Bool.false_eq_true, if_false, List.nil_append, List.append_nil,
    List.cons_append, List.append_assoc]

theorem initializeTree_text : initializeTree.text fmtLong =
    lit "\x7b\"protocolVersion\":\"2024-11-05\",\"capabilities\":\x7b\"tools\":" ++
      lit "\x7b\"listChanged\":false\x7d\x7d,\"serverInfo\":\x7b\"name\":\"naitron-c\"," ++
      lit "\"version\":\"0.0.1\"\x7d\x7d" := by
  rfl

theorem toolsTree_text : toolsTree.text fmtLong =
    clip 8192 (lit "\x7b\"tools\":" ++ toolsJson ++ lit "\x7d") := by
  decide +kernel

theorem emptyTree_text : (JsonTree.obj [] []).text fmtLong = lit "\x7b\x7d" :=
  rfl

theorem callTree_text (exec : McpExec) (id params : Option NtcJson) :
    (handleToolCall exec id params []).1 =
      (replyTree id (lit "result") (callTree exec params)).text fmtLong := by
  rw [handleToolCall, callTree]
  cases toolCommand params with
  | error text => exact replyContent_eq id text true
  | ok command => exact replyContent_eq id _ _

/-- What `ntc_mcp_handle` prints: the text of the tree, or nothing. -/
theorem mcpRespond_text (exec : McpExec) (root : NtcJson) :
    (mcpRespond exec root).1 = ((mcpTree exec root).map (JsonTree.text fmtLong)).getD [] := by
  rw [mcpRespond, mcpTree]
  split_ifs
  · rw [← initializeTree_text, replyResult_eq]
    rfl
  · rw [← toolsTree_text, replyResult_eq]
    rfl
  · rw [callTree_text]
    rfl
  · rw [← emptyTree_text, replyResult_eq]
    rfl
  · rfl
  · rw [replyError_eq _ _ (by decide)]
    rfl
  · rfl

-- ============================================================================
-- What comes back
-- ============================================================================

theorem mcpIdTree_printed (id : Option NtcJson) (n : Nat) :
    (mcpIdTree id).Printed fmtLong (n + 1) := by
  have hnum (text : Bytes) :
      (JsonTree.num (wholeDouble ((longOf text).getD (-2 ^ 63)))).Printed fmtLong (n + 1) := by
    rw [JsonTree.Printed, emitNum_long]
    exact ⟨jsonNumber_signedDecimal _, length_signedDecimal_le (natAbs_longOf text)⟩
  cases id with
  | none => trivial
  | some j =>
      cases j with
      | null | bool | arr | obj => trivial
      | num text => exact hnum text
      | str s =>
          rw [mcpIdTree]
          split_ifs
          · trivial
          · trivial

theorem replyTree_printed (id : Option NtcJson) (key : Bytes) {body : JsonTree} {n : Nat}
    (h : body.Printed fmtLong (n + 1)) : (replyTree id key body).Printed fmtLong (n + 2) := by
  refine ⟨rfl, Nat.le_of_ble_eq_true rfl, ?_⟩
  simp only [List.forall_mem_cons, List.not_mem_nil, false_implies, implies_true, and_true]
  exact ⟨trivial, mcpIdTree_printed id n, h⟩

theorem contentTree_printed (text : Bytes) (isError : Bool) (n : Nat) :
    (contentTree text isError).Printed fmtLong (n + 4) := by
  simp [contentTree, JsonTree.Printed, ntcJsonMaxMembers]

theorem errorTree_printed (msg : Bytes) (n : Nat) :
    (errorTree (-32601) msg).Printed fmtLong (n + 2) := by
  refine ⟨rfl, Nat.le_of_ble_eq_true rfl, ?_⟩
  simp only [List.forall_mem_cons, List.not_mem_nil, false_implies, implies_true, and_true]
  refine ⟨?_, trivial⟩
  rw [JsonTree.Printed, emitNum_long]
  exact ⟨jsonNumber_signedDecimal _, length_signedDecimal_le (by decide)⟩

theorem initializeTree_printed (n : Nat) : initializeTree.Printed fmtLong (n + 4) := by
  simp [initializeTree, JsonTree.Printed, ntcJsonMaxMembers]

theorem McpTool.tree_printed {t : McpTool} (hprops : t.props.length ≤ ntcJsonMaxMembers) (n : Nat) :
    t.tree.Printed fmtLong (n + 5) := by
  have hschema : t.schemaTree.Printed fmtLong (n + 4) := by
    rw [McpTool.schemaTree]
    split_ifs with hnil
    · simp [JsonTree.Printed, ntcJsonMaxMembers, hnil]
    · simp [JsonTree.Printed, ntcJsonMaxMembers] at hprops ⊢
      exact hprops
  refine ⟨rfl, Nat.le_of_ble_eq_true rfl, ?_⟩
  simp only [List.forall_mem_cons, List.not_mem_nil, false_implies, implies_true, and_true]
  exact ⟨trivial, trivial, hschema⟩

theorem toolsTree_printed (n : Nat) : toolsTree.Printed fmtLong (n + 7) := by
  have hprops : ∀ t ∈ mcpTools, t.props.length ≤ ntcJsonMaxMembers := by
    simp [mcpTools, ntcJsonMaxMembers]
  refine ⟨rfl, Nat.le_of_ble_eq_true rfl, ?_⟩
  simp only [List.forall_mem_cons, List.not_mem_nil, false_implies, implies_true, and_true]
  refine ⟨by decide, fun v hv => ?_⟩
  obtain ⟨t, ht, rfl⟩ := List.mem_map.mp hv
  exact t.tree_printed (hprops t ht) n

theorem mcpTree_printed {exec : McpExec} {root : NtcJson} {tree : JsonTree}
    (h : mcpTree exec root = some tree) : tree.Printed fmtLong ntcJsonMaxDepth := by
  have hcall (params : Option NtcJson) : (callTree exec params).Printed fmtLong 31 := by
    rw [callTree]
    cases toolCommand params with
    | error text => exact contentTree_printed text true 27
    | ok command => exact contentTree_printed _ _ 27
  rw [mcpTree] at h
  split_ifs at h
  · obtain rfl := Option.some.inj h
    exact replyTree_printed (n := 30) _ _ (initializeTree_printed 27)
  · obtain rfl := Option.some.inj h
    exact replyTree_printed (n := 30) _ _ (toolsTree_printed 24)
  · obtain rfl := Option.some.inj h
    exact replyTree_printed (n := 30) _ _ (hcall _)
  · obtain rfl := Option.some.inj h
    refine replyTree_printed (n := 30) _ _ ⟨rfl, by decide, ?_⟩
    exact fun v hv => absurd hv List.not_mem_nil
  · obtain rfl := Option.some.inj h
    exact replyTree_printed (n := 30) _ _ (errorTree_printed _ 29)

/-- No text of a tree holds a control byte. -/
theorem clean_text (v : JsonTree) : ∀ c ∈ v.text fmtLong, 32 ≤ c := by
  have hnum : ∀ s, (∃ d, s = emitNum fmtLong d) → ∀ c ∈ s, 32 ≤ c := by
    rintro s ⟨d, rfl⟩ c hc
    rcases d with _ | _ | q
    · exact absurd hc List.not_mem_nil
    · exact absurd hc List.not_mem_nil
    · rw [emitNum, fmtLong, ite_self] at hc
      exact isNumChar_clean ((signedDecimal_scanned _).2 c hc)
  intro c hc
  obtain ⟨t, ht, hc⟩ := List.mem_flatMap.mp hc
  exact (JsonTree.plain fmtLong v t ht).clean hnum c hc

theorem length_inQuotes (s : Bytes) : (inQuotes s).length = s.length + 2 := by
  rw [inQuotes, List.length_append, List.length_cons, List.length_singleton]

theorem length_writeId_le (id : Option NtcJson) : (writeId id).length ≤ 257 := by
  cases id with
  | none => decide
  | some j =>
      cases j with
      | null | bool | arr | obj => exact Nat.le_of_ble_eq_true rfl
      | num text => exact (length_signedDecimal_le (natAbs_longOf text)).trans (by decide)
      | str s =>
          rw [writeId, ntcJsonEscape]
          split_ifs
          · rw [length_inQuotes]
            omega
          · decide

/-- Size of the buffers that take a reply. -/
def mcpOutCap : Nat := 32768

theorem length_replyHead_le (id : Option NtcJson) : (replyHead id).length ≤ 284 := by
  have hid := length_writeId_le id
  have hhead : (lit "\x7b\"jsonrpc\":\"2.0\",\"id\":").length = 22 := by decide
  rw [replyHead, List.length_append, hhead]
  omega

theorem length_replyContent_lt (id : Option NtcJson) (text : Bytes) (isError : Bool) :
    (replyContent id text isError).length < mcpOutCap := by
  have hhead := length_replyHead_le id
  have hopen : (lit ",\"result\":\x7b\"content\":[\x7b\"type\":\"text\",\"text\":").length =
      44 := by decide
  have hmiddle : (lit "\x7d],\"isError\":").length = 13 := by decide
  have hclose : (lit "\x7d\x7d").length = 2 := by decide
  have hbool : (if isError then lit "true" else lit "false").length ≤ 5 := by
    cases isError with
    | true | false => decide
  have htext : ((ntcJsonEscape 16384 text).getD []).length ≤ 16384 := by
    rw [ntcJsonEscape]
    split_ifs with h
    · exact h.le
    · exact Nat.zero_le _
  rw [replyContent, mcpOutCap]
  simp only [List.length_append, length_inQuotes, hopen, hmiddle, hclose]
  omega

theorem mcpRespond_fits (exec : McpExec) (root : NtcJson) :
    (mcpRespond exec root).1.length < mcpOutCap := by
  have hresult (id : Option NtcJson) (result : Bytes) (h : result.length ≤ 8192) :
      (replyResult id result).length < mcpOutCap := by
    have hhead := length_replyHead_le id
    have hkey : (lit ",\"result\":").length = 10 := by decide
    have hclose : (lit "\x7d").length = 1 := by decide
    rw [replyResult, mcpOutCap, List.length_append, List.length_append, List.length_append, hkey,
      hclose]
    omega
  have herror (id : Option NtcJson) :
      (replyError id (-32601) (lit "method not found")).length < mcpOutCap := by
    have hhead := length_replyHead_le id
    have hkey : (lit ",\"error\":\x7b\"code\":" ++ signedDecimal (-32601) ++
      lit ",\"message\":" ++ inQuotes (lit "method not found") ++ lit "\x7d\x7d").length ≤ 100 := by
      decide
    rw [replyError, mcpOutCap]
    simp only [List.length_append] at hkey ⊢
    omega
  have hcall (id params : Option NtcJson) :
      (handleToolCall exec id params []).1.length < mcpOutCap := by
    rw [handleToolCall]
    cases toolCommand params with
    | error text => exact length_replyContent_lt id text true
    | ok command => exact length_replyContent_lt id _ _
  rw [mcpRespond]
  split_ifs
  · exact hresult _ _ (by decide +kernel)
  · exact hresult _ _ ((clip_length_le 8192 _).trans (by decide))
  · exact hcall _ _
  · exact hresult _ _ (by decide)
  · decide
  · exact herror _
  · decide

/-- The reply to a message: the text of the tree of its root. -/
theorem ntcMcpHandle_text (exec : McpExec) (msg : Bytes) {keys : List Bytes}
    {vals : List NtcJson} (hroot : ntcJsonParse msg = some (.obj keys vals)) :
    (ntcMcpHandle exec msg mcpOutCap).1 =
      ((mcpTree exec (.obj keys vals)).map (JsonTree.text fmtLong)).getD [] := by
  have hclip : clip mcpOutCap (mcpRespond exec (.obj keys vals)).1 =
      (mcpRespond exec (.obj keys vals)).1 := by
    refine clip_of_fits (fun hzero => ?_) (mcpRespond_fits exec _)
    rw [mcpRespond_text] at hzero
    cases htree : mcpTree exec (.obj keys vals) with
    | none =>
        rw [htree] at hzero
        exact absurd hzero List.not_mem_nil
    | some tree =>
        rw [htree] at hzero
        exact absurd (clean_text tree 0 hzero) (by decide)
  rw [ntcMcpHandle, hroot]
  exact hclip.trans (mcpRespond_text exec _)

/-- The tree of the reply to a message. -/
def mcpAnswer (exec : McpExec) (msg : Bytes) : Option JsonTree :=
  match ntcJsonParse msg with
  | some (.obj keys vals) => mcpTree exec (.obj keys vals)
  | _ => none

/-- A text that is one line, and that a client reads as a tree. -/
structure McpCarries (reply : Bytes) (tree : JsonTree) : Prop where
  json : IsJsonText reply
  parsed : ntcJsonParse reply = some (tree.value fmtLong)
  line : ∀ c ∈ reply, 32 ≤ c

theorem mcpAnswer_text (exec : McpExec) (msg : Bytes) :
    (ntcMcpHandle exec msg mcpOutCap).1 =
      ((mcpAnswer exec msg).map (JsonTree.text fmtLong)).getD [] := by
  cases hroot : ntcJsonParse msg with
  | none =>
      rw [ntcMcpHandle, mcpAnswer, hroot]
      rfl
  | some root =>
      cases root with
      | null | bool | num | str | arr =>
          rw [ntcMcpHandle, mcpAnswer, hroot]
          rfl
      | obj keys vals =>
          rw [ntcMcpHandle_text exec msg hroot, mcpAnswer, hroot]

/-- A reply carries the answer to the message. -/
theorem mcpAnswer_carries {exec : McpExec} {msg : Bytes} {tree : JsonTree}
    (h : mcpAnswer exec msg = some tree) :
    McpCarries (ntcMcpHandle exec msg mcpOutCap).1 tree := by
  have hprinted : tree.Printed fmtLong ntcJsonMaxDepth := by
    rw [mcpAnswer] at h
    split at h
    · exact mcpTree_printed h
    · exact absurd h.symm (Option.some_ne_none tree)
  rw [mcpAnswer_text, h]
  exact ⟨hprinted.text.1, hprinted.text.2, clean_text tree⟩

theorem mcpAnswer_none {exec : McpExec} {msg : Bytes} (h : mcpAnswer exec msg = none) :
    (ntcMcpHandle exec msg mcpOutCap).1 = [] := by
  rw [mcpAnswer_text, h]
  rfl

theorem McpCarries.ne_nil {reply : Bytes} {tree : JsonTree} (h : McpCarries reply tree) :
    reply ≠ [] := by
  rintro rfl
  exact absurd h.parsed.symm (Option.some_ne_none _)

-- ============================================================================
-- Messages on stdio
-- ============================================================================

/-- Size of `line`. -/
def mcpLineCap : Nat := 65536

/-- The results of `fgets` until it returns NULL, with fuel. -/
def fgetsLines (cap : Nat) : Nat → Bytes → List Bytes
  | 0, _ => []
  | n + 1, s =>
      let line := fgets cap s
      if line = [] then [] else line :: fgetsLines cap n (s.drop line.length)

/-- The loop of `ntc_mcp_run` over its lines, with the commands that have been
    executed. -/
def mcpRunLoop (exec : McpExec) : List Bytes → List Bytes → Bytes
  | [], _ => []
  | line :: lines, log =>
      let msg := cstr line
      if msg = [] then mcpRunLoop exec lines log
      else
        let r := ntcMcpHandle (fun done => exec (log ++ done)) msg mcpOutCap
        (if r.1 = [] then [] else r.1 ++ [chLf]) ++ mcpRunLoop exec lines (log ++ r.2)

/-- `ntc_mcp_run`: what it prints on stdout for all that comes in on stdin. -/
def ntcMcpRun (exec : McpExec) (stdin : Bytes) : Bytes :=
  mcpRunLoop exec (fgetsLines mcpLineCap (stdin.length + 1) stdin) []

/-- The answers to messages, each with the core as the commands of those before
    have left it. -/
def mcpAnswers (exec : McpExec) : List Bytes → List Bytes → List JsonTree
  | [], _ => []
  | msg :: msgs, log =>
      let exec' : McpExec := fun done => exec (log ++ done)
      (mcpAnswer exec' msg).toList ++
        mcpAnswers exec msgs (log ++ (ntcMcpHandle exec' msg mcpOutCap).2)

/-- Text for a line, which `fgets` takes in one piece. -/
structure TextLine (msg : Bytes) : Prop where
  noLf : chLf ∉ msg
  noNul : 0 ∉ msg
  fits : msg.length + 1 < mcpLineCap

/-- Lines, each with its line end. -/
def asLines (msgs : List Bytes) : Bytes := msgs.flatMap (· ++ [chLf])

theorem fgets_line {msg : Bytes} (h : TextLine msg) (rest : Bytes) :
    fgets mcpLineCap (msg ++ (chLf :: rest)) = msg ++ [chLf] := by
  have hword : ∀ c ∈ msg, (c != chLf) = true := by
    intro c hc
    refine bne_iff_ne.mpr ?_
    rintro rfl
    exact h.noLf hc
  have hfits := h.fits
  rw [fgets, List.takeWhile_append_of_pos hword, List.dropWhile_append_of_pos hword,
    List.takeWhile_cons_of_neg (by decide), List.dropWhile_cons_of_neg (by decide),
    List.append_nil, List.take_succ_cons, List.take_zero, List.take_of_length_le]
  rw [List.length_append, List.length_singleton]
  omega

theorem fgetsLines_asLines {msgs : List Bytes} (h : ∀ msg ∈ msgs, TextLine msg) :
    ∀ {n : Nat}, (asLines msgs).length < n →
      fgetsLines mcpLineCap n (asLines msgs) = msgs.map (· ++ [chLf]) := by
  induction msgs with
  | nil =>
      intro n _
      cases n with
      | zero => rfl
      | succ n => rfl
  | cons msg msgs ih =>
      intro n hn
      have hcons : asLines (msg :: msgs) = msg ++ (chLf :: asLines msgs) := by
        rw [asLines, List.flatMap_cons, List.append_assoc]
        rfl
      have hdrop : (asLines (msg :: msgs)).drop (msg ++ [chLf]).length = asLines msgs := by
        rw [asLines, List.flatMap_cons, List.drop_left, ← asLines]
      rw [hcons, List.length_append, List.length_cons] at hn
      obtain ⟨n, rfl⟩ : ∃ n', n = n' + 1 := ⟨n - 1, by omega⟩
      rw [fgetsLines, hcons, fgets_line (h msg List.mem_cons_self), ← hcons,
        if_neg (List.append_ne_nil_of_right_ne_nil msg (List.cons_ne_nil _ _)), hdrop,
        ih (fun m hm => h m (List.mem_cons_of_mem msg hm)) (by omega), List.map_cons]

/-- A line and its line end are not cut at a NUL. -/
theorem TextLine.cstr_line {msg : Bytes} (h : TextLine msg) :
    cstr (msg ++ [chLf]) = msg ++ [chLf] := by
  refine cstr_of_noNul fun hzero => ?_
  rcases List.mem_append.mp hzero with hzero | hzero
  · exact h.noNul hzero
  · exact absurd (List.mem_singleton.mp hzero) (by decide)

/-- What is printed for lines: the answers, in order. -/
theorem mcpRunLoop_answers (exec : McpExec) {msgs : List Bytes} (h : ∀ msg ∈ msgs, TextLine msg) :
    ∀ log, ∃ replies : List Bytes,
      mcpRunLoop exec (msgs.map (· ++ [chLf])) log = asLines replies ∧
        List.Forall₂ McpCarries replies (mcpAnswers exec (msgs.map (· ++ [chLf])) log) := by
  induction msgs with
  | nil => exact fun _ => ⟨[], rfl, .nil⟩
  | cons msg msgs ih =>
      intro log
      have hline := h msg List.mem_cons_self
      have hne : msg ++ [chLf] ≠ [] :=
        List.append_ne_nil_of_right_ne_nil msg (List.cons_ne_nil _ _)
      obtain ⟨replies, hrun, hall⟩ := ih (fun m hm => h m (List.mem_cons_of_mem msg hm))
        (log ++ (ntcMcpHandle (fun done => exec (log ++ done)) (msg ++ [chLf]) mcpOutCap).2)
      rw [List.map_cons, mcpRunLoop, mcpAnswers, hline.cstr_line]
      dsimp only
      rw [if_neg hne, hrun]
      cases hanswer : mcpAnswer (fun done => exec (log ++ done)) (msg ++ [chLf]) with
      | none =>
          rw [mcpAnswer_none hanswer, if_pos rfl]
          exact ⟨replies, rfl, hall⟩
      | some tree =>
          have hcarries := mcpAnswer_carries hanswer
          rw [if_neg hcarries.ne_nil]
          exact ⟨_ :: replies, rfl, .cons hcarries hall⟩

/-- A client that writes one message a line reads the answers back, one a line
    and in the order of the messages, each as the tree that it is. -/
theorem ntcMcpRun_session (exec : McpExec) {msgs : List Bytes} (h : ∀ msg ∈ msgs, TextLine msg) :
    ∃ replies : List Bytes, ntcMcpRun exec (asLines msgs) = asLines replies ∧
      List.Forall₂ McpCarries replies (mcpAnswers exec (msgs.map (· ++ [chLf])) []) := by
  rw [ntcMcpRun, fgetsLines_asLines h (Nat.lt_succ_self _)]
  exact mcpRunLoop_answers exec h []

/-- A notification, a call that adds a service, and a ping. -/
def sessionLines : List Bytes :=
  [lit "\x7b\"method\":\"notifications/initialized\"\x7d",
    addServiceMessage (lit "api") (lit "/bin/api"), lit "\x7b\"method\":\"ping\",\"id\":7\x7d"]

/-- A core that adds every service. -/
def addingExec : McpExec := fun _ _ => lit "OK service added\n"

theorem ntcMcpRun_session_add :
    ∃ replies : List Bytes, ntcMcpRun addingExec (asLines sessionLines) = asLines replies ∧
      List.Forall₂ McpCarries replies
        (mcpAnswers addingExec (sessionLines.map (· ++ [chLf])) []) ∧ replies.length = 2 := by
  have htwo : (mcpAnswers addingExec (sessionLines.map (· ++ [chLf])) []).length = 2 := by
    decide +kernel
  have hlines : ∀ msg ∈ sessionLines, TextLine msg := by
    intro msg hmsg
    rw [sessionLines, List.mem_cons, List.mem_cons, List.mem_singleton] at hmsg
    rcases hmsg with rfl | rfl | rfl
    · exact ⟨by decide, by decide, by decide⟩
    · exact ⟨by decide, by decide, by decide⟩
    · exact ⟨by decide, by decide, by decide⟩
  obtain ⟨replies, hrun, hall⟩ := ntcMcpRun_session addingExec hlines
  exact ⟨replies, hrun, hall, hall.length_eq.trans htwo⟩

-- ============================================================================
-- Messages over HTTP
-- ============================================================================

/-- The environment runs `ntc_mcp_handle`. -/
structure McpReal (E : Ext) : Prop where
  command : ∀ msg, E.mcpCommand msg = (ntcMcpHandle (fun _ _ => []) msg mcpOutCap).2.head?
  reply : ∀ msg out, E.mcpReply msg out = (ntcMcpHandle (fun _ _ => out.getD []) msg mcpOutCap).1

/-- `incore_mcp_exec` on the gateway. -/
def incoreMcpExec (E : Ext) (g : Gateway) : McpExec :=
  fun _ command => (execControlCommand E g (incoreLine command)).1

/-- The gateway after commands of `incore_mcp_exec`. -/
def afterCommands (E : Ext) (g : Gateway) (commands : List Bytes) : Gateway :=
  commands.foldl (fun g command => (execControlCommand E g (incoreLine command)).2) g

/-- Which command is executed does not depend on what it puts out. -/
theorem mcpRespond_log_eq (exec exec' : McpExec) (root : NtcJson) :
    (mcpRespond exec root).2 = (mcpRespond exec' root).2 := by
  rw [mcpRespond, mcpRespond]
  split_ifs
  · rfl
  · rfl
  · rw [handleToolCall, handleToolCall]
    cases toolCommand (ntcJsonGet root (lit "params")) with
    | error text => rfl
    | ok command => rfl
  · rfl
  · rfl
  · rfl
  · rfl

theorem ntcMcpHandle_log_eq (exec exec' : McpExec) (msg : Bytes) (cap : Nat) :
    (ntcMcpHandle exec msg cap).2 = (ntcMcpHandle exec' msg cap).2 := by
  rw [ntcMcpHandle, ntcMcpHandle]
  split
  · exact mcpRespond_log_eq exec exec' _
  · rfl

/-- A reply depends on the output of the command that is executed, and on
    nothing else of the core. -/
theorem mcpRespond_congr {exec exec' : McpExec} {root : NtcJson}
    (h : ∀ command ∈ (mcpRespond exec root).2, exec [] command = exec' [] command) :
    (mcpRespond exec root).1 = (mcpRespond exec' root).1 := by
  rw [mcpRespond] at h
  rw [mcpRespond, mcpRespond]
  split_ifs at h ⊢
  · rfl
  · rfl
  · rw [handleToolCall] at h
    rw [handleToolCall, handleToolCall]
    cases htool : toolCommand (ntcJsonGet root (lit "params")) with
    | error text => rfl
    | ok command =>
        rw [htool] at h
        dsimp only
        rw [h command (List.mem_append_right [] (List.mem_singleton_self command))]
  · rfl
  · rfl
  · rfl
  · rfl

theorem ntcMcpHandle_congr {exec exec' : McpExec} {msg : Bytes} {cap : Nat}
    (h : ∀ command ∈ (ntcMcpHandle exec msg cap).2, exec [] command = exec' [] command) :
    (ntcMcpHandle exec msg cap).1 = (ntcMcpHandle exec' msg cap).1 := by
  rw [ntcMcpHandle] at h
  rw [ntcMcpHandle, ntcMcpHandle]
  split at h
  · exact congrArg (clip cap) (mcpRespond_congr h)
  · rfl

/-- The branch of `handle_admin` is what the source says, command and reply
    together. -/
theorem handleMcp_real {E : Ext} (hE : McpReal E) {g : Gateway} (k : ConnId) {req : NtcRequest}
    (hpath : req.path = lit "/_ntc/mcp") (hmethod : req.method = lit "POST")
    (hauth : adminAuthorized g req = true) (hok : (g.ask E).1.ok = true) :
    let r := ntcMcpHandle (incoreMcpExec E (g.ask E).2) req.body mcpOutCap
    handleMcp E g k req =
      sendResp E (afterCommands E (g.ask E).2 r.2) k (if r.1.isEmpty then 202 else 200) ctJson
        r.1 := by
  intro r
  have hcommand : adminCommand E (g.ask E).2 req = r.2.head?.map incoreLine := by
    have hauth' : adminAuthorized (g.ask E).2 req = true := hauth
    rw [adminCommand, if_pos ⟨hpath, hmethod, hauth'⟩, hE.command,
      ntcMcpHandle_log_eq _ (incoreMcpExec E (g.ask E).2)]
    rfl
  have hsend : ∀ (g' : Gateway) (out : Option Bytes),
      (∀ command ∈ r.2, incoreMcpExec E (g.ask E).2 [] command = out.getD []) →
      (if (E.mcpReply req.body out).isEmpty then sendResp E g' k 202 ctJson []
        else sendResp E g' k 200 ctJson (E.mcpReply req.body out)) =
      sendResp E g' k (if r.1.isEmpty then 202 else 200) ctJson r.1 := by
    intro g' out hout
    rw [hE.reply, ← ntcMcpHandle_congr hout]
    split_ifs with hempty
    · rw [List.isEmpty_iff.mp hempty]
    · rfl
  rw [handleMcp]
  dsimp only
  rw [hok, hcommand]
  rcases ntcMcpHandle_log (incoreMcpExec E (g.ask E).2) req.body mcpOutCap with
    hlog | ⟨root, command, -, hlog, -⟩
  · have hlog : r.2 = [] := hlog
    rw [hlog]
    refine hsend _ none fun command hmem => ?_
    rw [hlog] at hmem
    exact absurd hmem List.not_mem_nil
  · have hlog : r.2 = [command] := hlog
    rw [hlog]
    refine hsend _ (some _) fun command' hmem => ?_
    rw [hlog, List.mem_singleton] at hmem
    rw [hmem]
    rfl

/-- A call with the token over HTTP: the command that `ntc_mcp_handle` makes of
    the message is executed, at most one, and the body of the response carries
    the answer, with the output that this gateway gave.  Without an answer the
    response is 202 and empty. -/
theorem handleAdmin_mcp {E : Ext} (hE : McpReal E) {g : Gateway} (k : ConnId) {req : NtcRequest}
    (hpath : req.path = lit "/_ntc/mcp") (hmethod : req.method = lit "POST")
    (hauth : adminAuthorized g req = true) (hok : (g.ask E).1.ok = true) :
    (ntcMcpHandle (incoreMcpExec E (g.ask E).2) req.body mcpOutCap).2.length ≤ 1 ∧
    ∃ status body,
      handleAdmin E g k req =
        sendResp E (afterCommands E (g.ask E).2
          (ntcMcpHandle (incoreMcpExec E (g.ask E).2) req.body mcpOutCap).2) k status ctJson body ∧
      (mcpAnswer (incoreMcpExec E (g.ask E).2) req.body = none → status = 202 ∧ body = []) ∧
      ∀ tree, mcpAnswer (incoreMcpExec E (g.ask E).2) req.body = some tree →
        status = 200 ∧ McpCarries body tree := by
  have hadmin : handleAdmin E g k req = handleMcp E g k req := by
    rw [handleAdmin, if_pos hpath, if_neg (not_not_intro hmethod), hauth]
    rfl
  refine ⟨?_, _, _, hadmin.trans (handleMcp_real hE k hpath hmethod hauth hok), ?_, ?_⟩
  · rcases ntcMcpHandle_log (incoreMcpExec E (g.ask E).2) req.body mcpOutCap with
      hlog | ⟨root, command, -, hlog, -⟩
    · rw [hlog]
      exact Nat.zero_le 1
    · rw [hlog]
      exact le_rfl
  · intro hnone
    rw [mcpAnswer_none hnone]
    exact ⟨rfl, rfl⟩
  · intro tree hsome
    have hcarries := mcpAnswer_carries hsome
    refine ⟨if_neg fun hempty => hcarries.ne_nil (List.isEmpty_iff.mp hempty), hcarries⟩

/-- A quiet environment that runs `ntc_mcp_handle`. -/
def mcpExt : Ext :=
  { quietExt with
    mcpCommand := fun msg => (ntcMcpHandle (fun _ _ => []) msg mcpOutCap).2.head?
    mcpReply := fun msg out => (ntcMcpHandle (fun _ _ => out.getD []) msg mcpOutCap).1 }

def mcpStart : Gateway := startServices mcpExt (bootGateway [] [] (loadToken none none))

/-- A call that adds a service, with the token. -/
def addServiceRequest : NtcRequest where
  method := lit "POST"
  path := lit "/_ntc/mcp"
  headers := [⟨lit "authorization", lit "Bearer ntc-insecure-token"⟩]
  body := addServiceMessage (lit "api") (lit "/bin/api")

/-- The service is added, and the answer carries what that put out. -/
theorem handleAdmin_mcp_add :
    ∃ body tree,
      handleAdmin mcpExt mcpStart 0 addServiceRequest =
        sendResp mcpExt (afterCommands mcpExt (mcpStart.ask mcpExt).2
          [lit "service-add api /bin/api"]) 0 200 ctJson body ∧ McpCarries body tree := by
  have hlog : (ntcMcpHandle (incoreMcpExec mcpExt (mcpStart.ask mcpExt).2) addServiceRequest.body
      mcpOutCap).2 = [lit "service-add api /bin/api"] := by decide +kernel
  have hanswer : (mcpAnswer (incoreMcpExec mcpExt (mcpStart.ask mcpExt).2)
      addServiceRequest.body).isSome = true := by decide +kernel
  obtain ⟨tree, htree⟩ := Option.isSome_iff_exists.mp hanswer
  obtain ⟨-, status, body, hadmin, -, hsome⟩ := @handleAdmin_mcp mcpExt
    ⟨fun _ => rfl, fun _ _ => rfl⟩ mcpStart 0 addServiceRequest rfl rfl
    (by decide +kernel) (by decide +kernel)
  obtain ⟨rfl, hcarries⟩ := hsome tree htree
  rw [hlog] at hadmin
  exact ⟨body, tree, hadmin, hcarries⟩

end Naitron
