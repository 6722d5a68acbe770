import RaftStore.Model.Discovery
import RaftStore.Rpc.Config

namespace RaftStore

/-!
# What the nodes find

The nodes of a cluster append their two lines each to one file, in any order and, if they are
started more than once, more than once.  Whoever reads the file finds the nodes up to the first
one whose address is not there yet, and port 0 for those among them whose port is not.

* `plain` — the bytes that neither `Trim` nor the parser treat in a special way.
* `load_flatten`, `given_entry` — a file of whole lines, and one line.
* `Host`, `Registered`, `announced` — the nodes, their lines, and what can be known from lines.
* `discovery` — servers and clients find that, and all nodes once all lines are there.
-/

open MprpcConfig

/-! ## Plain text -/

/-- No null, newline, space, `#` or `=`. -/
def plain (c : UInt8) : Bool :=
  c != 0 && c != newlineChar && c != spaceChar && c != hashChar && c != equalsChar

section plain

variable {s key value : Bytes} {c : UInt8}

/-- A digit is plain. -/
theorem plain_of_isDigit (h : isDigit c = true) : plain c = true := by
  simp only [isDigit, Bool.and_eq_true, decide_eq_true_eq] at h
  have hne : ∀ d : UInt8, d.toNat < 48 ∨ 58 ≤ d.toNat → (c != d) = true := by
    intro d hd
    apply bne_iff_ne.mpr
    rintro rfl
    omega
  simp only [plain, Bool.and_eq_true]
  exact ⟨⟨⟨⟨hne 0 (by decide), hne _ (by decide)⟩, hne _ (by decide)⟩, hne _ (by decide)⟩,
    hne _ (by decide)⟩

/-- A plain character is none of the special ones. -/
theorem ne_of_plain {d : UInt8} (hd : plain d = false) (h : plain c = true) : c ≠ d := by
  rintro rfl
  rw [hd] at h
  cases h

/-- No special character is in a plain text. -/
theorem not_mem_of_plain {d : UInt8} (hd : plain d = false) (h : ∀ c ∈ s, plain c = true) :
    d ∉ s := fun hmem => ne_of_plain hd (h d hmem) rfl

/-- The digits of a number are plain. -/
theorem plain_digits (n : ℕ) : ∀ c ∈ digits n, plain c = true := fun c hc =>
  plain_of_isDigit (isDigit_of_mem_digits n c hc)

/-- Plain texts make a plain text. -/
theorem plain_append {a b : Bytes} (ha : ∀ c ∈ a, plain c = true) (hb : ∀ c ∈ b, plain c = true) :
    ∀ c ∈ a ++ b, plain c = true := fun c hc => (List.mem_append.mp hc).elim (ha c) (hb c)

/-- A number in decimal is plain. -/
theorem plain_decimal (n : ℤ) : ∀ c ∈ intToString n, plain c = true := by
  rw [intToString, decimal]
  split
  · exact plain_append (a := [minusChar]) (List.all_eq_true.mp rfl) (plain_digits _)
  · exact plain_digits _

/-- A dotted address is plain. -/
theorem plain_inetNtop (addr : InAddr) : ∀ c ∈ inetNtop addr, plain c = true := by
  have hdot : ∀ s, (∀ c ∈ s, plain c = true) → ∀ c ∈ dotChar :: s, plain c = true := fun s hs =>
    plain_append (a := [dotChar]) (List.all_eq_true.mp rfl) hs
  exact plain_append (plain_digits _) (hdot _ (plain_append (plain_digits _)
    (hdot _ (plain_append (plain_digits _) (hdot _ (plain_digits _))))))

/-- The key of an address is plain. -/
theorem plain_ipKey (i : ℤ) : ∀ c ∈ ipKey i, plain c = true :=
  plain_append (plain_append (List.all_eq_true.mp rfl) (plain_decimal i)) (List.all_eq_true.mp rfl)

/-- The key of a port is plain. -/
theorem plain_portKey (i : ℤ) : ∀ c ∈ portKey i, plain c = true :=
  plain_append (plain_append (List.all_eq_true.mp rfl) (plain_decimal i)) (List.all_eq_true.mp rfl)

/-- There is nothing to trim. -/
theorem trimmed_of_plain (h : ∀ c ∈ s, plain c = true) : trimmed s = s := by
  have hspace : ∀ c ∈ s, (c == spaceChar) = false := fun c hc =>
    beq_false_of_ne (ne_of_plain (by decide) (h c hc))
  have htight : Tight (· == spaceChar) s :=
    ⟨fun c hc => hspace c (List.mem_of_mem_head? hc),
      fun c hc => hspace c (List.mem_of_getLast? hc)⟩
  simpa using strip_eq (a := []) (b := []) (by simp) (by simp) htight

/-- **A line of plain text** gives the key its value. -/
theorem given_entry (hkey : ∀ c ∈ key, plain c = true) (hvalue : ∀ c ∈ value, plain c = true)
    (hlen : key.length + value.length < 510) (k : Bytes) :
    given k (key ++ equalsChar :: (value ++ [newlineChar])) =
      if key = k then some value else none := by
  have hequals : equalsChar ∉ key := not_mem_of_plain (by decide) hkey
  -- neither byte is in the line
  have hother : ∀ d, plain d = false → d ≠ equalsChar → d ∉ key ++ equalsChar :: value := by
    intro d hd hne hmem
    rcases List.mem_append.mp hmem with hmem | hmem
    · exact not_mem_of_plain hd hkey hmem
    · exact (List.mem_cons.mp hmem).elim hne (not_mem_of_plain hd hvalue)
  have hcontributes : contributes (key ++ equalsChar :: value) = true := by
    rw [contributes, Bool.and_eq_true, bne_iff_ne, List.contains_iff_mem]
    refine ⟨?_, by simp⟩
    cases key with
    | nil => exact by simp [equalsChar, spaceChar, hashChar]
    | cons c key =>
      have hc := hkey c (List.mem_cons_self ..)
      rw [dropWhile_of_head]
      · simpa using ne_of_plain (by decide) hc
      · rintro x ⟨⟩
        exact beq_false_of_ne (ne_of_plain (by decide) hc)
  have hline : key ++ equalsChar :: (value ++ [newlineChar]) =
      (key ++ equalsChar :: value) ++ [newlineChar] := by simp
  rw [given, hline, parseLine_ended (hother 0 (by decide) (by decide))
    (hother newlineChar (by decide) (by decide)) (by simp; omega), if_pos hcontributes,
    keyOf_eq hequals, valueOf, restOf_eq hequals, trimmed_of_plain hkey, trimmed_of_plain hvalue,
    ite_self]
  rfl

end plain

/-! ## A file of whole lines -/

/-- A line that fits into the buffer. -/
def WholeLine (line : Bytes) : Prop :=
  ∃ body, line = body ++ [newlineChar] ∧ newlineChar ∉ body ∧ body.length < 511

/-- A file of whole lines is read line by line. -/
theorem readLoop_flatten {log : List Bytes} (h : ∀ line ∈ log, WholeLine line)
    (config : MprpcConfig) :
    config.readLoop { rest := log.flatten } = log.foldl addLine config := by
  induction log generalizing config with
  | nil =>
    rw [List.flatten_nil, readLoop_open (by simp), chunks, pieces_of_lt (by decide)]
    rfl
  | cons line log ih =>
    obtain ⟨⟨body, rfl, hnewline, hlen⟩, hlog⟩ := List.forall_mem_cons.mp h
    rw [List.flatten_cons, List.append_assoc, List.singleton_append, readLoop_ended hnewline,
      pieces_of_lt hlen, ih hlog, List.map_singleton, List.foldl_cons, List.foldl_cons,
      List.foldl_nil, chunkText_true]

/-- What is loaded for a key that one of the lines gives a value. -/
theorem load_flatten {log : List Bytes} (h : ∀ line ∈ log, WholeLine line) (key : Bytes) :
    (readLoop {} { rest := log.flatten }).load key = (log.findSome? (given key)).getD [] := by
  rw [load, readLoop_flatten h, lookup_foldl]
  rfl

/-- If one line alone gives a value, it is found wherever it stands. -/
theorem findSome?_of_single {f : Bytes → Option Bytes} {a b : Bytes} {l : List Bytes}
    (h : ∀ x ∈ l, f x = if x = a then some b else none) :
    l.findSome? f = if l.contains a then some b else none := by
  induction l with
  | nil => rfl
  | cons x l ih =>
    obtain ⟨hx, hl⟩ := List.forall_mem_cons.mp h
    rw [List.findSome?_cons, hx, ih hl, List.contains_cons]
    by_cases hxa : x = a
    · simp [hxa]
    · simp [hxa, Ne.symm hxa]

/-! ## The nodes of a cluster -/

/-- A node: what `gethostbyname` returns for it, which is not empty, and its port. -/
structure Host where
  addr : InAddr
  others : List InAddr
  port : Int16

/-- The line is one that a node of the cluster writes when it starts. -/
def Registered (hosts : List Host) (line : Bytes) : Prop :=
  ∃ (i : ℕ) (host : Host) (lines : List Bytes), hosts[i]? = some host ∧
    RpcProvider.registration i (host.addr :: host.others) host.port = some lines ∧ line ∈ lines

/-- What the lines tell of the nodes from number `i` on. -/
def announced (log : List Bytes) : ℕ → List Host → List (Bytes × Int16)
  | _, [] => []
  | i, host :: hosts =>
    if log.contains (RpcProvider.ipLine i (inetNtop host.addr)) then
      (inetNtop host.addr, if log.contains (RpcProvider.portLine i host.port) then host.port else 0)
        :: announced log (i + 1) hosts
    else []

section hosts

variable {hosts : List Host} {log : List Bytes} {line : Bytes} {i j : ℕ}

/-- The lines of a registration are an address and a port for each host. -/
theorem registered_iff : Registered hosts line ↔ ∃ (i : ℕ) (host : Host), hosts[i]? = some host ∧
    (line = RpcProvider.ipLine i (inetNtop host.addr) ∨
      line = RpcProvider.portLine i host.port) := by
  constructor
  · rintro ⟨i, host, lines, hhost, hlines, hline⟩
    rw [RpcProvider.registration, List.head?_cons, Option.map_some, Option.some.injEq] at hlines
    subst hlines
    exact ⟨i, host, hhost, by simpa using hline⟩
  · rintro ⟨i, host, hhost, hline⟩
    exact ⟨i, host, _, hhost, rfl, by simpa using hline⟩

/-- Nodes are told apart by their names. -/
theorem nodeName_injective {rest : Bytes} (h : nodeName i ++ rest = nodeName j ++ rest) :
    i = j := by
  have hdecimal : digits i = digits j := by
    have hname := List.append_cancel_left (List.append_cancel_right h)
    have hsign : ∀ n : ℕ, ¬ (n : ℤ) < 0 := fun n => by omega
    simpa [intToString, decimal, hsign] using hname
  exact digits_injective hdecimal

/-- Nodes are told apart by the keys of their addresses. -/
theorem ipKey_inj : ipKey i = ipKey j ↔ i = j :=
  ⟨nodeName_injective, fun h => by rw [h]⟩

/-- Nodes are told apart by the keys of their ports. -/
theorem portKey_inj : portKey i = portKey j ↔ i = j :=
  ⟨nodeName_injective, fun h => by rw [h]⟩

/-- They differ in the last byte. -/
theorem ipKey_ne_portKey (i j : ℤ) : ipKey i ≠ portKey j := by
  intro h
  have hlast := congrArg List.getLast? h
  simp [ipKey, portKey] at hlast

/-- How long a number in decimal gets, with a sign. -/
theorem length_intToString_le {n : ℤ} {k : ℕ} (h : n.natAbs < 10 ^ (k + 1)) :
    (intToString n).length ≤ k + 2 := by
  have hdigits := length_digits_le h
  rw [intToString, decimal]
  split
  · simp only [List.length_cons]
    omega
  · omega

/-- A dotted address has at most 15 characters. -/
theorem length_inetNtop_le (addr : InAddr) : (inetNtop addr).length ≤ 15 := by
  have hbyte : ∀ b : UInt8, (digits b.toNat).length ≤ 3 := fun b =>
    length_digits_le (k := 2) (by have := b.toNat_lt; omega)
  have h1 := hbyte addr.b1
  have h2 := hbyte addr.b2
  have h3 := hbyte addr.b3
  have h4 := hbyte addr.b4
  simp only [inetNtop, List.length_append, List.length_cons]
  omega

/-- A port has at most six characters, with a sign. -/
theorem length_port_le (port : Int16) : (intToString port.toInt).length ≤ 6 := by
  have hlt := port.toInt_lt
  have hle := port.le_toInt
  exact length_intToString_le (k := 4) (by omega)

/-- The name of a node has at most 15 characters. -/
theorem length_nodeName_le (hi : i < 2 ^ 31) : (nodeName i).length ≤ 15 := by
  have hlen := length_intToString_le (n := i) (k := 9) (by omega)
  simp only [nodeName, List.length_append, List.length_cons, List.length_nil]
  omega

/-- What a line with an address gives to a key. -/
theorem given_ipLine (hi : i < 2 ^ 31) (addr : InAddr) (k : Bytes) :
    given k (RpcProvider.ipLine i (inetNtop addr)) =
      if ipKey i = k then some (inetNtop addr) else none := by
  have hname := length_nodeName_le hi
  have hvalue := length_inetNtop_le addr
  refine given_entry (plain_ipKey i) (plain_inetNtop addr) ?_ k
  simp only [ipKey, List.length_append, List.length_cons, List.length_nil]
  omega

/-- What a line with a port gives to a key. -/
theorem given_portLine (hi : i < 2 ^ 31) (port : Int16) (k : Bytes) :
    given k (RpcProvider.portLine i port) =
      if portKey i = k then some (intToString port.toInt) else none := by
  have hname := length_nodeName_le hi
  have hvalue := length_port_le port
  refine given_entry (plain_portKey i) (plain_decimal _) ?_ k
  simp only [portKey, List.length_append, List.length_cons, List.length_nil]
  omega

/-! ## What is loaded -/

/-- Every line of a registration fits into the buffer of `fgets`. -/
theorem wholeLine_of_registered (hlen : hosts.length ≤ 2 ^ 31 - 2) (h : Registered hosts line) :
    WholeLine line := by
  -- a key and its value, neither with a newline
  have hwhole : ∀ key value : Bytes, (∀ c ∈ key, plain c = true) → (∀ c ∈ value, plain c = true) →
      key.length + value.length < 510 →
      WholeLine (key ++ equalsChar :: (value ++ [newlineChar])) := by
    intro key value hkey hvalue hlength
    refine ⟨key ++ equalsChar :: value, by simp, fun hmem => ?_, by simp; omega⟩
    rcases List.mem_append.mp hmem with hmem | hmem
    · exact not_mem_of_plain (by decide) hkey hmem
    · exact (List.mem_cons.mp hmem).elim (by decide) (not_mem_of_plain (by decide) hvalue)
  obtain ⟨i, host, hhost, hline⟩ := registered_iff.mp h
  have hi := (List.getElem?_eq_some_iff.mp hhost).1
  have hname := length_nodeName_le (i := i) (by omega)
  have hip := length_inetNtop_le host.addr
  have hport := length_port_le host.port
  rcases hline with rfl | rfl
  · apply hwhole _ _ (plain_ipKey i) (plain_inetNtop host.addr)
    simp only [ipKey, List.length_append, List.length_cons, List.length_nil]
    omega
  · apply hwhole _ _ (plain_portKey i) (plain_decimal _)
    simp only [portKey, List.length_append, List.length_cons, List.length_nil]
    omega

/-- A key that only one line of the nodes gives a value. -/
theorem load_registered (hlen : hosts.length ≤ 2 ^ 31 - 2)
    (hlog : ∀ line ∈ log, Registered hosts line) {key target value : Bytes}
    (hgiven : given key target = some value)
    (honly : ∀ line, Registered hosts line → line ≠ target → given key line = none) :
    (readLoop {} { rest := log.flatten }).load key = if log.contains target then value else [] := by
  have hsingle : ∀ line ∈ log, given key line = if line = target then some value else none := by
    intro line hline
    split
    case isTrue h => rw [h, hgiven]
    case isFalse h => exact honly line (hlog line hline) h
  rw [load_flatten fun line hline => wholeLine_of_registered hlen (hlog line hline),
    findSome?_of_single hsingle]
  split <;> rfl

variable {host : Host}

/-- The address of a node is found if its line is there. -/
theorem load_ipKey (hlen : hosts.length ≤ 2 ^ 31 - 2) (hlog : ∀ line ∈ log, Registered hosts line)
    (hhost : hosts[i]? = some host) :
    (readLoop {} { rest := log.flatten }).load (ipKey i) =
      if log.contains (RpcProvider.ipLine i (inetNtop host.addr)) then inetNtop host.addr
      else [] := by
  have hi := (List.getElem?_eq_some_iff.mp hhost).1
  apply load_registered hlen hlog
  · rw [given_ipLine (by omega), if_pos rfl]
  · intro line hline hne
    obtain ⟨j, other, hother, hline⟩ := registered_iff.mp hline
    have hj := (List.getElem?_eq_some_iff.mp hother).1
    rcases hline with rfl | rfl
    · rw [given_ipLine (by omega), if_neg]
      rintro hkey
      obtain rfl := ipKey_inj.mp hkey
      obtain rfl := Option.some.inj (hother.symm.trans hhost)
      exact hne rfl
    · rw [given_portLine (by omega), if_neg (Ne.symm (ipKey_ne_portKey i j))]

/-- So is its port. -/
theorem load_portKey (hlen : hosts.length ≤ 2 ^ 31 - 2)
    (hlog : ∀ line ∈ log, Registered hosts line) (hhost : hosts[i]? = some host) :
    (readLoop {} { rest := log.flatten }).load (portKey i) =
      if log.contains (RpcProvider.portLine i host.port) then intToString host.port.toInt
      else [] := by
  have hi := (List.getElem?_eq_some_iff.mp hhost).1
  apply load_registered hlen hlog
  · rw [given_portLine (by omega), if_pos rfl]
  · intro line hline hne
    obtain ⟨j, other, hother, hline⟩ := registered_iff.mp hline
    have hj := (List.getElem?_eq_some_iff.mp hother).1
    rcases hline with rfl | rfl
    · rw [given_ipLine (by omega), if_neg (ipKey_ne_portKey j i)]
    · rw [given_portLine (by omega), if_neg]
      rintro hkey
      obtain rfl := portKey_inj.mp hkey
      obtain rfl := Option.some.inj (hother.symm.trans hhost)
      exact hne rfl

/-- There is no address of a node that does not exist. -/
theorem load_ipKey_of_le (hlen : hosts.length ≤ 2 ^ 31 - 2)
    (hlog : ∀ line ∈ log, Registered hosts line) (hi : hosts.length ≤ i) :
    (readLoop {} { rest := log.flatten }).load (ipKey i) = [] := by
  have hnone : log.findSome? (given (ipKey i)) = none := by
    rw [List.findSome?_eq_none_iff]
    intro line hline
    obtain ⟨j, other, hother, hline⟩ := registered_iff.mp (hlog line hline)
    have hj := (List.getElem?_eq_some_iff.mp hother).1
    rcases hline with rfl | rfl
    · rw [given_ipLine (by omega), if_neg]
      intro hkey
      have hji := ipKey_inj.mp hkey
      omega
    · rw [given_portLine (by omega), if_neg (Ne.symm (ipKey_ne_portKey i j))]
  rw [load_flatten fun line hline => wholeLine_of_registered hlen (hlog line hline), hnone]
  rfl

/-! ## The nodes that are found -/

/-- A port is read back. -/
theorem atoi_intToString (port : Int16) : Int16.ofInt (atoi (intToString port.toInt)) = port := by
  have hlt := port.toInt_lt
  have hle := port.le_toInt
  -- `atoi` skips white space, and a decimal number begins with none
  have hspace : (intToString port.toInt).dropWhile isspace = intToString port.toInt := by
    apply dropWhile_of_head
    intro c hc
    have hdigit : ∀ n, ∀ c ∈ (digits n).head?, isspace c = false := by
      intro n c hc
      have hc := isDigit_of_mem_digits n c (List.mem_of_mem_head? hc)
      simp only [isDigit, Bool.and_eq_true, decide_eq_true_eq] at hc
      have hne : c ≠ spaceChar := by
        rintro rfl
        exact absurd hc (by decide)
      simp only [isspace, Bool.or_eq_false_iff, Bool.and_eq_false_iff, decide_eq_false_iff_not]
      exact ⟨beq_false_of_ne hne, by omega⟩
    rw [intToString, decimal] at hc
    split at hc
    · obtain rfl := Option.some.inj hc
      decide
    · exact hdigit _ c hc
  have hvalue : atoi (intToString port.toInt) = port.toInt := by
    rw [atoi, cString_of_not_mem (not_mem_of_plain (by decide) (plain_decimal _)), hspace,
      intToString, readDecimal_decimal, Int.bmod]
    split <;> omega
  rw [hvalue, Int16.ofInt_toInt]

/-- A dotted address is not empty. -/
theorem inetNtop_ne_nil (addr : InAddr) : (inetNtop addr).isEmpty = false := by
  obtain ⟨c, s, hcs⟩ := List.exists_cons_of_ne_nil (digits_ne_nil addr.b1.toNat)
  rw [inetNtop, hcs]
  rfl

/-- **The loop over the nodes** finds what the lines tell. -/
theorem nodesFrom_eq (hlen : hosts.length ≤ 2 ^ 31 - 2) (hlog : ∀ line ∈ log, Registered hosts line)
    {rest : List Host} (hrest : hosts.drop i = rest) :
    (readLoop {} { rest := log.flatten }).nodesFrom i = announced log i rest := by
  induction rest generalizing i with
  -- without an address in the file the loop ends, as it does behind the last node
  | nil =>
    rw [nodesFrom, announced]
    split
    · rw [load_ipKey_of_le hlen hlog (List.drop_eq_nil_iff.mp hrest)]
      rfl
    · rfl
  | cons host rest ih =>
    have hhost : hosts[i]? = some host := by
      rw [← List.head?_drop, hrest]
      rfl
    have hi := (List.getElem?_eq_some_iff.mp hhost).1
    have hdrop : hosts.drop (i + 1) = rest := by
      rw [← List.tail_drop, hrest]
      rfl
    rw [nodesFrom, if_pos (by omega), announced, load_ipKey hlen hlog hhost,
      load_portKey hlen hlog hhost, ih hdrop]
    -- a line without an address ends the list; one without a port gives port 0
    by_cases hip : log.contains (RpcProvider.ipLine i (inetNtop host.addr)) = true
    · simp only [if_pos hip, inetNtop_ne_nil, Bool.false_eq_true, if_false]
      by_cases hport : log.contains (RpcProvider.portLine i host.port) = true
      · rw [if_pos hport, if_pos hport, atoi_intToString]
      · rw [if_neg hport, if_neg hport]
        rfl
    · simp only [if_neg hip]
      rfl

/-- If all lines are there, all nodes are known. -/
theorem announced_eq {rest : List Host} (hall : ∀ (j : ℕ) (host : Host), rest[j]? = some host →
    RpcProvider.ipLine (i + j : ℕ) (inetNtop host.addr) ∈ log ∧
      RpcProvider.portLine (i + j : ℕ) host.port ∈ log) :
    announced log i rest = rest.map fun host => (inetNtop host.addr, host.port) := by
  induction rest generalizing i with
  | nil => rfl
  | cons host rest ih =>
    obtain ⟨hip, hport⟩ := hall 0 host rfl
    rw [Nat.add_zero] at hip hport
    rw [announced, if_pos (List.contains_iff_mem.mpr hip), if_pos (List.contains_iff_mem.mpr hport),
      ih, List.map_cons]
    intro j other hother
    have hj := hall (j + 1) other hother
    rwa [← Nat.add_assoc, Nat.add_right_comm] at hj

end hosts

/-- **Discovery**: from lines of the nodes, in any order and any number of them, clients and servers
    find what the lines tell, which is all nodes with their ports once all lines are there. -/
theorem discovery {hosts : List Host} {log : List Bytes} (hlen : hosts.length ≤ 2 ^ 31 - 2)
    (hlog : ∀ line ∈ log, Registered hosts line) (me : ℕ) :
    Clerk.init [] (some log.flatten) = some (announced log 0 hosts) ∧
      KvServer.servers me (some log.flatten) = some ((announced log 0 hosts).mapIdx fun i node =>
        if i = me then none else some node) ∧
      ((∀ line, Registered hosts line → line ∈ log) →
        announced log 0 hosts = hosts.map fun host => (inetNtop host.addr, host.port)) := by
  have hnodes := nodesFrom_eq (i := 0) hlen hlog rfl
  refine ⟨?_, ?_, fun hall => announced_eq fun j host hhost => ?_⟩
  · rw [Clerk.init, loadConfigFile, Option.map_some, Option.map_some, hnodes]
    rfl
  · rw [KvServer.servers, loadConfigFile, Option.map_some, Option.map_some, hnodes]
    rfl
  · rw [Nat.zero_add]
    exact ⟨hall _ (registered_iff.mpr ⟨j, host, hhost, .inl rfl⟩),
      hall _ (registered_iff.mpr ⟨j, host, hhost, .inr rfl⟩)⟩

/-- Two nodes on one host. -/
def twoHosts : List Host := [⟨⟨127, 0, 1, 1⟩, [], 8000⟩, ⟨⟨127, 0, 1, 1⟩, [], 8001⟩]

/-- The second one was faster. -/
theorem discovery_twoHosts :
    Clerk.init [] (some [RpcProvider.ipLine (1 : ℕ) (inetNtop ⟨127, 0, 1, 1⟩),
      RpcProvider.ipLine (0 : ℕ) (inetNtop ⟨127, 0, 1, 1⟩), RpcProvider.portLine (1 : ℕ) 8001,
      RpcProvider.portLine (0 : ℕ) 8000].flatten) =
      some (twoHosts.map fun host => (inetNtop host.addr, host.port)) := by
  have hregistered : ∀ line, Registered twoHosts line ↔
      line ∈ [RpcProvider.ipLine (1 : ℕ) (inetNtop ⟨127, 0, 1, 1⟩),
        RpcProvider.ipLine (0 : ℕ) (inetNtop ⟨127, 0, 1, 1⟩), RpcProvider.portLine (1 : ℕ) 8001,
        RpcProvider.portLine (0 : ℕ) 8000] := by
    intro line
    rw [registered_iff]
    constructor
    · rintro ⟨i, host, hhost, hline⟩
      have hi : i < 2 := (List.getElem?_eq_some_iff.mp hhost).1
      obtain rfl | rfl : i = 0 ∨ i = 1 := by omega
      all_goals
        obtain rfl := Option.some.inj hhost
        rcases hline with rfl | rfl <;> simp
    · simp only [List.mem_cons, List.not_mem_nil, or_false]
      rintro (rfl | rfl | rfl | rfl)
      · exact ⟨1, _, rfl, .inl rfl⟩
      · exact ⟨0, _, rfl, .inl rfl⟩
      · exact ⟨1, _, rfl, .inr rfl⟩
      · exact ⟨0, _, rfl, .inr rfl⟩
  obtain ⟨hclerk, -, hall⟩ :=
    discovery (show twoHosts.length ≤ 2 ^ 31 - 2 by decide) (fun line => (hregistered line).mpr) 0
  rw [hclerk, hall fun line => (hregistered line).mp]

end RaftStore
