import DemoEstate.Library.Framing
import DemoEstate.Netsim.Counter
import DemoEstate.Snmp.Table

/-!
# The delivery agent's output

The delivery shell emits a small section of its own and every other host's agent output between
marker lines.  Whoever reads the output divides it at these lines; what stands behind a line with
a name belongs to that host, and a line without a name switches back to the shell.

Main definitions:

- Definition {lit}`deliveryMinimal`: the shell's own section.
- Definition {lit}`buildDeliveryOutput`: the whole output.
- Definition {lit}`readDelivery`: the output, divided at its marker lines.

Main results:

- Theorem {lit}`unmarked_deliveryMinimal`: no line of the shell's own section is a marker.
- Theorem {lit}`readDelivery_buildDeliveryOutput`: every host gets its own output, and the shell
  its section.
-/

namespace DemoEstate
namespace Delivery

open Netsim (int)
open Snmp (Bytes utf8)

/-! ## The shell's own section -/

/-- Four hexadecimal digits in lower case. -/
def hex4 (n : Nat) : Text :=
  [n / 4096, n / 256 % 16, n / 16 % 16, n % 16].map fun d => "0123456789abcdef".toList.getD d '0'

/-- One character of a JSON string; everything that is not printable ASCII is escaped. -/
def jsonChar (c : Char) : Text :=
  if c = '"' then "\\\"".toList
  else if c = '\\' then "\\\\".toList
  else if c = '\n' then "\\n".toList
  else if c = '\r' then "\\r".toList
  else if c = '\t' then "\\t".toList
  else if c.toNat = 0x0C then "\\f".toList
  else if c.toNat = 0x08 then "\\b".toList
  else if ' ' ≤ c ∧ c ≤ '~' then [c]
  else if c.toNat < 0x10000 then "\\u".toList ++ hex4 c.toNat
  else
    "\\u".toList ++ hex4 (0xD800 + (c.toNat - 0x10000) / 0x400) ++
      "\\u".toList ++ hex4 (0xDC00 + (c.toNat - 0x10000) % 0x400)

/-- A JSON string. -/
def jsonStr (s : Text) : Text :=
  '"' :: s.flatMap jsonChar ++ ['"']

/-- The environment of the shell: the version it reports, its name, and how it delivers.  The
first two are each a line of the output. -/
structure ShellEnv where
  agentVersion : Text
  deliveryHostname : Text
  deliveryMode : Text
  version_line : '\n' ∉ agentVersion
  hostname_line : '\n' ∉ deliveryHostname

/-- Two readings of the clock, the process start, and the date of a second. -/
structure Clock where
  now : ℚ
  later : ℚ
  start : ℚ
  strftime : ℤ → Text

/-- The state of the agent's connections between the version and the end of the certificate. -/
def ctlConnections : List String :=
  [",\"agent_socket_operational\":true,\"ip_allowlist\":[],\"allow_legacy_pull\":false,",
   "\"connections\":[\x7b\"site_id\":\"monitoring/prod\",\"receiver_port\":8000,",
   "\"uuid\":\"0e5a2c11-9d44-4a7b-bf01-7c2e9a3d6e10\",",
   "\"local\":\x7b\"connection_mode\":\"pull-agent\",",
   "\"cert_info\":\x7b\"issuer\":\"Site 'prod' local CA\",",
   "\"from\":\"Tue, 03 Jun 2025 09:12:44 +0000\",\"to\":"]

/-- The state of the agent's connections, in JSON. -/
def ctlStatus (shell : ShellEnv) (certTo : Text) : Text :=
  "\x7b\"version\":".toList ++ (jsonStr shell.agentVersion ++
    (ctlConnections.flatMap String.toList ++ (jsonStr certTo ++
      "\x7d\x7d,\"remote\":\"remote_query_disabled\"\x7d]\x7d".toList)))

/-- The lines of the shell's own section. -/
def minimalLines (shell : ShellEnv) (clock : Clock) : List Text :=
  let now := int clock.now
  let uptime := int (clock.later - clock.start) + 3 * 86400
  let certTo := clock.strftime (now + 320 * 86400)
  ["<<<check_mk>>>".toList,
   "Version: ".toList ++ shell.agentVersion,
   "AgentOS: linux".toList,
   "Hostname: ".toList ++ shell.deliveryHostname,
   "OSType: linux".toList,
   "OSName: Ubuntu".toList,
   "OSVersion: 24.04".toList,
   "OSPlatform: ubuntu".toList,
   "FailedPythonReason: ".toList,
   "SSHClient: ".toList,
   -- minimal but TLS-clean so the delivery host's own Check_MK Agent is OK
   "<<<cmk_agent_ctl_status:sep(0)>>>".toList,
   ctlStatus shell certTo,
   -- uptime so the shell has a couple of real services of its own
   "<<<uptime>>>".toList,
   Text.str uptime ++ ".00 ".toList ++ Text.str (uptime * 3) ++ ".00".toList]

/-- The shell's own section. -/
def deliveryMinimal (shell : ShellEnv) (clock : Clock) : Text :=
  (minimalLines shell clock).flatMap fun line => line ++ ['\n']

/-! ## The output -/

/-- The line feed. -/
def lf : UInt8 := 0x0A

/-- The name of a host: not empty, and without line feeds. -/
structure Fqdn where
  text : Text
  ne_nil : text ≠ []
  line : '\n' ∉ text

/-- A host whose agent was asked, with what it sent; a host that is not up sends nothing. -/
structure Fetched where
  fqdn : Fqdn
  payload : Bytes

/-- The line that switches to a host, or back to the shell. -/
def markerLine (name : Text) : Bytes :=
  utf8 ("<<<<".toList ++ name ++ ">>>>\n".toList)

/-- Append a host's output between its markers. -/
def addBlock (out : Bytes) (child : Fetched) : Bytes :=
  if child.payload = [] then out
  else
    let out := out ++ markerLine child.fqdn.text ++ child.payload
    let out := if child.payload.getLast? = some lf then out else out ++ [lf]
    out ++ markerLine []

/-- The output of the delivery agent. -/
def buildDeliveryOutput (shell : ShellEnv) (clock : Clock) (children : List Fetched) : Bytes :=
  let out := utf8 (deliveryMinimal shell clock)
  if shell.deliveryMode = "datasource".toList then out
  else children.foldl addBlock out

/-! ## Reading it -/

/-- A line without one last octet. -/
def stripEnd (x : UInt8) (line : Bytes) : Bytes :=
  if line.getLast? = some x then line.dropLast else line

/-- What stands between four opening and four closing brackets. -/
def bracketed (line : Bytes) : Option Bytes :=
  if 8 ≤ line.length ∧ line.take 4 = utf8 "<<<<".toList ∧
      line.drop (line.length - 4) = utf8 ">>>>".toList then
    some ((line.drop 4).take (line.length - 8))
  else none

/-- The name in a marker line, which may end in a carriage return and a line feed. -/
def markerName (line : Bytes) : Option Bytes :=
  bracketed (stripEnd 0x0D (stripEnd lf line))

/-- The shell's part of an output, and the parts of the hosts in order. -/
def readDelivery (out : Bytes) : Bytes × List (Bytes × Bytes) :=
  let (own, pieces) := Framing.split markerName (Framing.lines lf out)
  (own ++ (pieces.filter fun piece => piece.1 = []).flatMap Prod.snd,
    pieces.filter fun piece => piece.1 ≠ [])

/-! ## UTF-8 -/

theorem utf8_append (s t : Text) : utf8 (s ++ t) = utf8 s ++ utf8 t :=
  List.flatMap_append

theorem utf8_ne_nil {s : Text} (h : s ≠ []) : utf8 s ≠ [] := by
  rcases List.exists_cons_of_ne_nil h with ⟨c, rest, rfl⟩
  exact List.append_ne_nil_of_left_ne_nil String.utf8EncodeChar_ne_nil _

/-- An octet of a character is the character itself, or outside ASCII. -/
theorem toNat_of_mem_utf8EncodeChar {c : Char} {b : UInt8} (h : b ∈ String.utf8EncodeChar c) :
    b.toNat = c.toNat ∨ 0x80 ≤ b.toNat := by
  simp only [String.utf8EncodeChar] at h
  split at h
  · rcases List.mem_singleton.mp h with rfl
    left
    rw [UInt8.toNat_ofNat']
    change _ % 256 = c.val.toNat
    omega
  · right
    split at h
    · simp only [List.mem_cons, List.not_mem_nil, or_false] at h
      rcases h with rfl | rfl <;> rw [UInt8.toNat_ofNat'] <;> omega
    split at h
    · simp only [List.mem_cons, List.not_mem_nil, or_false] at h
      rcases h with rfl | rfl | rfl <;> rw [UInt8.toNat_ofNat'] <;> omega
    · simp only [List.mem_cons, List.not_mem_nil, or_false] at h
      rcases h with rfl | rfl | rfl | rfl <;> rw [UInt8.toNat_ofNat'] <;> omega

/-- A text without line feeds is encoded without them. -/
theorem lf_not_mem_utf8 {s : Text} (h : '\n' ∉ s) : lf ∉ utf8 s := by
  intro hmem
  rcases List.mem_flatMap.mp hmem with ⟨c, hc, hb⟩
  rcases toNat_of_mem_utf8EncodeChar hb with heq | hhigh
  · have hchar : c = '\n' := Char.toNat_inj.mp heq.symm
    exact h (hchar ▸ hc)
  · exact absurd hhigh (by decide)

/-! ## Marker lines -/

theorem stripEnd_self (x : UInt8) (line : Bytes) : stripEnd x (line ++ [x]) = line := by
  simp [stripEnd]

theorem stripEnd_of_not_mem {x : UInt8} {line : Bytes} (h : x ∉ line) : stripEnd x line = line := by
  rw [stripEnd, if_neg fun hlast => h (List.mem_of_getLast? hlast)]

/-- A line and the line with its feed are read as one. -/
theorem markerName_append_lf {line : Bytes} (h : lf ∉ line) :
    markerName (line ++ [lf]) = markerName line := by
  rw [markerName, markerName, stripEnd_self, stripEnd_of_not_mem h]

theorem bracketed_eq (name : Bytes) :
    bracketed (utf8 "<<<<".toList ++ name ++ utf8 ">>>>".toList) = some name := by
  have hopening : utf8 "<<<<".toList = [0x3C, 0x3C, 0x3C, 0x3C] := by decide
  have hclosing : utf8 ">>>>".toList = [0x3E, 0x3E, 0x3E, 0x3E] := by decide
  have hlength : (utf8 "<<<<".toList ++ name ++ utf8 ">>>>".toList).length = name.length + 8 := by
    rw [hopening, hclosing]
    simp
  have hdrop : (utf8 "<<<<".toList ++ name ++ utf8 ">>>>".toList).drop (name.length + 4) =
      utf8 ">>>>".toList := by
    apply List.drop_left'
    rw [hopening]
    simp +arith
  rw [bracketed, hlength, if_pos ⟨by omega, by rw [hopening]; rfl, hdrop⟩]
  rw [hopening]
  simp

/-- A marker line is its brackets and a line feed. -/
theorem markerLine_eq (name : Text) :
    markerLine name = utf8 ("<<<<".toList ++ name ++ ">>>>".toList) ++ [lf] := by
  have hfeed : ">>>>\n".toList = ">>>>".toList ++ ['\n'] := by decide
  rw [markerLine, hfeed, ← List.append_assoc, utf8_append]
  rfl

theorem lf_not_mem_brackets {name : Text} (h : '\n' ∉ name) :
    lf ∉ utf8 ("<<<<".toList ++ name ++ ">>>>".toList) := by
  apply lf_not_mem_utf8
  simp [h]

/-- A marker line shows its name. -/
theorem markerName_markerLine {name : Text} (h : '\n' ∉ name) :
    markerName (markerLine name) = some (utf8 name) := by
  have hfree := lf_not_mem_brackets h
  have hlast : (utf8 ">>>>".toList).getLast? = some 0x3E := by decide
  have hplain : stripEnd 0x0D (utf8 ("<<<<".toList ++ name ++ ">>>>".toList)) =
      utf8 ("<<<<".toList ++ name ++ ">>>>".toList) := by
    rw [utf8_append, stripEnd, List.getLast?_append, hlast, Option.some_or, if_neg (by decide)]
  rw [markerLine_eq, markerName_append_lf hfree, markerName, stripEnd_of_not_mem hfree, hplain,
    utf8_append, utf8_append, bracketed_eq]

theorem lines_markerLine {name : Text} (h : '\n' ∉ name) (rest : Bytes) :
    Framing.lines lf (markerLine name ++ rest) = markerLine name :: Framing.lines lf rest := by
  rw [markerLine_eq, Framing.lines_append (Framing.closed_append_feed _),
    Framing.lines_line (lf_not_mem_brackets h), List.singleton_append]

/-- A line that does not open brackets is no marker. -/
theorem markerName_eq_none {line : Bytes} (h : line.take 4 ≠ utf8 "<<<<".toList) :
    markerName line = none := by
  have hstart : ∀ (x : UInt8) (line : Bytes), stripEnd x line <+: line := by
    intro x line
    unfold stripEnd
    split
    · exact List.dropLast_prefix line
    · exact List.prefix_rfl
  rw [markerName, bracketed, if_neg]
  rintro ⟨hlength, hopening, -⟩
  rcases (hstart 0x0D _).trans (hstart lf line) with ⟨rest, hrest⟩
  apply h
  rw [← hrest, List.take_append_of_le_length (by omega), hopening]

/-! ## The shell's own lines -/

/-- A line of the shell's own section: without line feeds, and no opening brackets. -/
structure OwnLine (line : Text) : Prop where
  unbroken : '\n' ∉ line
  opening : (utf8 line).take 4 ≠ utf8 "<<<<".toList

/-- A line that starts with another character opens no brackets. -/
theorem take_utf8_ne {c : Char} (hc : c ≠ '<') (s : Text) :
    (utf8 (c :: s)).take 4 ≠ utf8 "<<<<".toList := by
  intro h
  have hchar : utf8 (c :: s) = String.utf8EncodeChar c ++ utf8 s := rfl
  have hopening : utf8 "<<<<".toList = [0x3C, 0x3C, 0x3C, 0x3C] := by decide
  cases hbytes : String.utf8EncodeChar c with
  | nil => exact String.utf8EncodeChar_ne_nil hbytes
  | cons b bytes =>
      rw [hchar, hbytes, hopening, List.cons_append, List.take_succ_cons, List.cons.injEq] at h
      have hb : b ∈ String.utf8EncodeChar c := by
        rw [hbytes]
        exact List.mem_cons_self
      rw [h.1] at hb
      rcases toNat_of_mem_utf8EncodeChar hb with heq | hhigh
      · exact hc (Char.toNat_inj.mp heq.symm)
      · exact absurd hhigh (by decide)

/-- What follows the start of a line does not open brackets. -/
theorem OwnLine.append {a b : Text} (ha : OwnLine a) (hlength : 4 ≤ (utf8 a).length)
    (hb : '\n' ∉ b) : OwnLine (a ++ b) where
  unbroken h := (List.mem_append.mp h).elim ha.unbroken hb
  opening := by
    rw [utf8_append, List.take_append_of_le_length hlength]
    exact ha.opening

theorem not_mem_hex4 (n : Nat) : '\n' ∉ hex4 n := by
  intro h
  rcases List.mem_map.mp h with ⟨d, -, hd⟩
  have hdigit : ∀ d, "0123456789abcdef".toList.getD d '0' ≠ '\n' := by
    intro d heq
    rw [List.getD_eq_getElem?_getD] at heq
    cases hget : "0123456789abcdef".toList[d]? with
    | none =>
        rw [hget] at heq
        exact absurd heq (by decide)
    | some c =>
        rw [hget, Option.getD_some] at heq
        exact absurd (List.mem_of_getElem? hget) (heq ▸ by decide)
  exact hdigit d hd

/-- A JSON string has no line feeds. -/
theorem not_mem_jsonStr (s : Text) : '\n' ∉ jsonStr s := by
  have hchar : ∀ c, '\n' ∉ jsonChar c := by
    intro c
    unfold jsonChar
    repeat' split
    all_goals simp [not_mem_hex4]
    rename_i hline _ _ _ _ _
    exact Ne.symm hline
  simp only [jsonStr, List.cons_append, List.mem_cons, List.mem_append, List.mem_flatMap,
    List.not_mem_nil, or_false]
  rintro (h | ⟨c, -, h⟩ | h)
  · exact absurd h (by decide)
  · exact hchar c h
  · exact absurd h (by decide)

theorem not_mem_of_plain {s : Text} (h : Text.Plain s) : '\n' ∉ s := fun hmem =>
  absurd (h _ hmem) (by decide)

theorem ownLine_ctlStatus (env : ShellEnv) (certTo : Text) : OwnLine (ctlStatus env certTo) := by
  have hpieces : ∀ piece ∈ ctlConnections, Text.Plain piece.toList := by
    have hliteral {cs : List Char} (h : cs.all Text.isPrintable = true) := Text.plain_literal h
    refine List.forall_mem_cons.mpr ⟨hliteral (by decide), List.forall_mem_cons.mpr
      ⟨hliteral (by decide), List.forall_mem_cons.mpr ⟨hliteral (by decide),
        List.forall_mem_cons.mpr ⟨hliteral (by decide), List.forall_mem_cons.mpr
          ⟨hliteral (by decide), List.forall_mem_singleton.mpr (hliteral (by decide))⟩⟩⟩⟩⟩
  have hconnections : '\n' ∉ ctlConnections.flatMap String.toList := by
    intro h
    rcases List.mem_flatMap.mp h with ⟨piece, hpiece, hmem⟩
    exact not_mem_of_plain (hpieces piece hpiece) hmem
  refine OwnLine.append ⟨by decide, by decide⟩ (by decide) ?_
  simp only [List.mem_append, not_or]
  exact ⟨not_mem_jsonStr _, hconnections, not_mem_jsonStr _, by decide⟩

theorem ownLine_uptime (n m : ℤ) :
    OwnLine (Text.str n ++ ".00 ".toList ++ Text.str m ++ ".00".toList) where
  unbroken := by
    simp only [List.mem_append, not_or]
    exact ⟨⟨⟨not_mem_of_plain (Text.plain_str n), by decide⟩, not_mem_of_plain (Text.plain_str m)⟩,
      by decide⟩
  opening := by
    cases n with
    | ofNat n =>
        cases hdigits : Text.decimal n with
        | nil => exact absurd hdigits (Text.decimal_ne_nil n)
        | cons c s =>
            have hdigit : c.isDigit := Text.isDigit_of_mem_decimal (n := n) (by simp [hdigits])
            have hc : c ≠ '<' := by
              rintro rfl
              exact absurd hdigit (by decide)
            rw [Text.str, hdigits]
            exact take_utf8_ne hc _
    | negSucc n => exact take_utf8_ne (by decide) _

/-- Every line of the shell's own section is one of its own. -/
theorem ownLine_minimalLines (env : ShellEnv) (clock : Clock) :
    ∀ line ∈ minimalLines env clock, OwnLine line := by
  have hversion : OwnLine ("Version: ".toList ++ env.agentVersion) :=
    OwnLine.append ⟨by decide, by decide⟩ (by decide) env.version_line
  have hhostname : OwnLine ("Hostname: ".toList ++ env.deliveryHostname) :=
    OwnLine.append ⟨by decide, by decide⟩ (by decide) env.hostname_line
  intro line hline
  simp only [minimalLines, List.mem_cons, List.not_mem_nil, or_false] at hline
  rcases hline with rfl | rfl | rfl | rfl | rfl | rfl | rfl | rfl | rfl | rfl | rfl | rfl | rfl | rfl
  · exact ⟨by decide, by decide⟩
  · exact hversion
  · exact ⟨by decide, by decide⟩
  · exact hhostname
  · exact ⟨by decide, by decide⟩
  · exact ⟨by decide, by decide⟩
  · exact ⟨by decide, by decide⟩
  · exact ⟨by decide, by decide⟩
  · exact ⟨by decide, by decide⟩
  · exact ⟨by decide, by decide⟩
  · exact ⟨by decide, by decide⟩
  · exact ownLine_ctlStatus env _
  · exact ⟨by decide, by decide⟩
  · exact ownLine_uptime _ _

/-- Texts without line feeds are the lines they are joined to. -/
theorem lines_utf8_join {texts : List Text} (h : ∀ text ∈ texts, '\n' ∉ text) :
    Framing.lines lf (utf8 (texts.flatMap fun text => text ++ ['\n'])) =
      texts.map fun text => utf8 text ++ [lf] := by
  induction texts with
  | nil => rfl
  | cons text texts ih =>
      have hfirst := Framing.lines_line (lf_not_mem_utf8 (h text List.mem_cons_self))
      have hfeed : utf8 (text ++ ['\n']) = utf8 text ++ [lf] := by
        rw [utf8_append]
        rfl
      rw [List.flatMap_cons, utf8_append, hfeed, Framing.lines_append (Framing.closed_append_feed _),
        hfirst, ih fun t ht => h t (List.mem_cons_of_mem text ht), List.map_cons,
        List.singleton_append]

/-- No line of the shell's own section is a marker. -/
theorem unmarked_deliveryMinimal (env : ShellEnv) (clock : Clock) :
    ∀ line ∈ Framing.lines lf (utf8 (deliveryMinimal env clock)), markerName line = none := by
  have hown := ownLine_minimalLines env clock
  rw [deliveryMinimal, lines_utf8_join fun text htext => (hown text htext).unbroken]
  intro line hline
  rcases List.mem_map.mp hline with ⟨text, htext, rfl⟩
  rw [markerName_append_lf (lf_not_mem_utf8 (hown text htext).unbroken)]
  exact markerName_eq_none (hown text htext).opening

theorem closed_utf8_join (texts : List Text) :
    Framing.Closed lf (utf8 (texts.flatMap fun text => text ++ ['\n'])) := by
  rcases List.eq_nil_or_concat texts with rfl | ⟨front, last, rfl⟩
  · simp [Framing.Closed, utf8]
  · rw [List.concat_eq_append, List.flatMap_append, List.flatMap_singleton, ← List.append_assoc,
      utf8_append]
    exact Framing.closed_append_feed _

/-! ## The blocks -/

/-- An output with a final line feed. -/
def closed (payload : Bytes) : Bytes :=
  if payload.getLast? = some lf then payload else payload ++ [lf]

/-- A host's output between its markers. -/
def block (child : Fetched) : Bytes :=
  if child.payload = [] then []
  else markerLine child.fqdn.text ++ (closed child.payload ++ markerLine [])

theorem addBlock_eq (out : Bytes) (child : Fetched) : addBlock out child = out ++ block child := by
  unfold addBlock block closed
  by_cases hempty : child.payload = []
  · simp [hempty]
  · rw [if_neg hempty, if_neg hempty]
    by_cases hlast : child.payload.getLast? = some lf
    · simp [hlast]
    · simp [hlast]

theorem foldl_addBlock (out : Bytes) (children : List Fetched) :
    children.foldl addBlock out = out ++ children.flatMap block := by
  induction children generalizing out with
  | nil => simp
  | cons child children ih => rw [List.foldl_cons, ih, addBlock_eq, List.flatMap_cons,
      List.append_assoc]

theorem closed_closed (payload : Bytes) : Framing.Closed lf (closed payload) := by
  unfold closed
  split
  · rename_i hlast
    intro x hx
    rw [hlast] at hx
    exact (Option.some.inj hx).symm
  · exact Framing.closed_append_feed _

/-- A final line feed makes no marker line. -/
theorem unmarked_closed {payload : Bytes}
    (h : ∀ line ∈ Framing.lines lf payload, markerName line = none) :
    ∀ line ∈ Framing.lines lf (closed payload), markerName line = none := by
  unfold closed
  split
  · exact h
  · rename_i hlast
    by_cases hempty : payload = []
    · rw [hempty]
      decide
    have hopen : ¬ Framing.Closed lf payload := by
      intro hclosed
      cases hget : payload.getLast? with
      | none => exact hempty (List.getLast?_eq_none_iff.mp hget)
      | some x => exact hlast (by rw [hget, hclosed x hget])
    rcases Framing.lines_close hopen with ⟨front, last, hlines, hfree, hclosed⟩
    rw [hlines] at h
    rw [hclosed]
    intro line hline
    rcases List.mem_append.mp hline with hline | hline
    · exact h line (List.mem_append_left _ hline)
    · rw [List.mem_singleton.mp hline, markerName_append_lf hfree]
      exact h last (by simp)

/-- The blocks are divided into the hosts' parts and what stands between them. -/
theorem split_blocks {children : List Fetched}
    (h : ∀ child ∈ children, ∀ line ∈ Framing.lines lf child.payload, markerName line = none) :
    Framing.split markerName (Framing.lines lf (children.flatMap block)) =
      ([], (children.filter fun child => child.payload ≠ []).flatMap fun child =>
        [(utf8 child.fqdn.text, closed child.payload), ([], [])]) := by
  induction children with
  | nil => rfl
  | cons child children ih =>
      have hrest := ih fun c hc => h c (List.mem_cons_of_mem child hc)
      have hown := h child List.mem_cons_self
      rw [List.flatMap_cons, block]
      by_cases hempty : child.payload = []
      · rw [if_pos hempty, List.nil_append, hrest, List.filter_cons_of_neg (by simpa using hempty)]
      · have hback : markerName (markerLine []) = some (utf8 []) := markerName_markerLine (by simp)
        rw [if_neg hempty, List.append_assoc, lines_markerLine child.fqdn.line, List.append_assoc,
          Framing.lines_append (closed_closed _), lines_markerLine (by simp),
          Framing.split_marker (markerName_markerLine child.fqdn.line),
          Framing.split_append (unmarked_closed hown), Framing.split_marker hback, hrest,
          List.filter_cons_of_pos (by simpa using hempty)]
        simp [utf8]

/-- The named parts are those of the hosts, and nothing stands behind the others. -/
theorem filter_parts (children : List Fetched) :
    let parts := children.flatMap fun child =>
      [(utf8 child.fqdn.text, closed child.payload), (([] : Bytes), ([] : Bytes))]
    (parts.filter fun part => part.1 = []).flatMap Prod.snd = [] ∧
      parts.filter (fun part => part.1 ≠ []) =
        children.map fun child => (utf8 child.fqdn.text, closed child.payload) := by
  induction children with
  | nil => exact ⟨rfl, rfl⟩
  | cons child children ih =>
      have hname : utf8 child.fqdn.text ≠ [] := utf8_ne_nil child.fqdn.ne_nil
      simp only [List.flatMap_cons, List.cons_append, List.nil_append, List.map_cons] at ih ⊢
      constructor
      · rw [List.filter_cons_of_neg (by simpa using hname), List.filter_cons_of_pos (by simp),
          List.flatMap_cons, ih.1, List.append_nil]
      · rw [List.filter_cons_of_pos (by simpa using hname), List.filter_cons_of_neg (by simp), ih.2]

/-- Dividing the output at its marker lines gives the shell its own section, and every host that
sent something its output, in order, with a line feed at its end. -/
theorem readDelivery_buildDeliveryOutput (env : ShellEnv) (clock : Clock) (children : List Fetched)
    (hmode : env.deliveryMode ≠ "datasource".toList)
    (hpayload : ∀ child ∈ children, ∀ line ∈ Framing.lines lf child.payload,
      markerName line = none) :
    readDelivery (buildDeliveryOutput env clock children) =
      (utf8 (deliveryMinimal env clock),
        (children.filter fun child => child.payload ≠ []).map fun child =>
          (utf8 child.fqdn.text, closed child.payload)) := by
  have hclosed : Framing.Closed lf (utf8 (deliveryMinimal env clock)) := closed_utf8_join _
  rw [buildDeliveryOutput, if_neg hmode, foldl_addBlock, readDelivery,
    Framing.lines_append hclosed, Framing.split_append (unmarked_deliveryMinimal env clock), split_blocks hpayload]
  rcases filter_parts (children.filter fun child => child.payload ≠ []) with ⟨hbetween, hnamed⟩
  dsimp only at hbetween hnamed ⊢
  rw [hbetween, hnamed, List.append_nil, List.append_nil, Framing.flatten_lines]

/-- A shell in piggyback mode. -/
def gateway : ShellEnv where
  agentVersion := "2.5.0-2026.04.03".toList
  deliveryHostname := "cmk-demo-gateway".toList
  deliveryMode := "piggyback".toList
  version_line := by decide
  hostname_line := by decide

/-- A host that sends a line with a carriage return, and one that is not up. -/
def twoHosts : List Fetched :=
  [⟨⟨"web-frontend-01".toList, by decide, by decide⟩, utf8 "<<<uptime>>>\r\n5".toList⟩,
    ⟨⟨"app-worker-01".toList, by decide, by decide⟩, []⟩]

/-- A clock a minute after the start. -/
def firstMinute : Clock where
  now := 60
  later := 60
  start := 0
  strftime _ := "2025-01-01".toList

theorem readDelivery_twoHosts :
    readDelivery (buildDeliveryOutput gateway firstMinute twoHosts) =
      (utf8 (deliveryMinimal gateway firstMinute),
        [(utf8 "web-frontend-01".toList, utf8 "<<<uptime>>>\r\n5\n".toList)]) := by
  have hread := readDelivery_buildDeliveryOutput gateway firstMinute twoHosts (by decide) (by
    have hall : twoHosts.all (fun child =>
        (Framing.lines lf child.payload).all fun line => (markerName line).isNone) = true := by
      decide +kernel
    intro child hchild line hline
    exact Option.isNone_iff_eq_none.mp
      (List.all_eq_true.mp (List.all_eq_true.mp hall child hchild) line hline))
  have hparts : (twoHosts.filter fun child => child.payload ≠ []).map (fun child =>
      (utf8 child.fqdn.text, closed child.payload)) =
        [(utf8 "web-frontend-01".toList, utf8 "<<<uptime>>>\r\n5\n".toList)] := by
    decide +kernel
  rw [hread, hparts]

end Delivery
end DemoEstate
