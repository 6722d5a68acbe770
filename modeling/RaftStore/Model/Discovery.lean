import Mathlib.Algebra.Group.Nat.Defs
import Mathlib.Algebra.Ring.Int.Defs
import RaftStore.Model.Config
import RaftStore.Lib.Decimal

namespace RaftStore

/-!
# Finding the other nodes

Each node appends its address to the configuration file when its provider starts, and servers and
clients read the addresses of all nodes from the file: `RpcProvider::Run` up to the file, the
constructor of `KvServer` and `Clerk::Init` up to the connections.  A connection is the address
that it is made with.

* `intToString`, `atoi`, `inetNtop` — of the libraries.
* `RpcProvider.registration` — the lines that `Run` writes.
* `MprpcConfig.nodesFrom` — the loop over `Load`.
* `KvServer.servers`, `Clerk.init` — the connections.
-/

/-! ## Libraries -/

/-- `std::to_string` of an `int`. -/
def intToString (n : ℤ) : Bytes := decimal n

/-- `isspace`. -/
def isspace (c : UInt8) : Bool := c == spaceChar || (decide (9 ≤ c.toNat) && decide (c.toNat < 14))

/-- `atoi`, which is `strtol` with its result made an `int`. -/
def atoi (s : Bytes) : ℤ :=
  let n := readDecimal ((cString s).dropWhile isspace)
  Int.bmod (max (-2 ^ 63) (min n (2 ^ 63 - 1))) (2 ^ 32)

/-- `in_addr`, in network order. -/
structure InAddr where
  b1 : UInt8
  b2 : UInt8
  b3 : UInt8
  b4 : UInt8
  deriving DecidableEq

/-- `'.'`. -/
def dotChar : UInt8 := 46

/-- `inet_ntop` for `AF_INET`. -/
def inetNtop (addr : InAddr) : Bytes :=
  digits addr.b1.toNat ++ dotChar :: (digits addr.b2.toNat ++ dotChar ::
    (digits addr.b3.toNat ++ dotChar :: digits addr.b4.toNat))

/-! ## Writing -/

/-- `"node" + std::to_string(i)`. -/
def nodeName (i : ℤ) : Bytes := [110, 111, 100, 101] ++ intToString i

/-- `node + "ip"`. -/
def ipKey (i : ℤ) : Bytes := nodeName i ++ [105, 112]

/-- `node + "port"`. -/
def portKey (i : ℤ) : Bytes := nodeName i ++ [112, 111, 114, 116]

namespace RpcProvider

/-- `outfile << node + "ip=" + ip << std::endl`. -/
def ipLine (nodeIndex : ℤ) (ip : Bytes) : Bytes :=
  ipKey nodeIndex ++ equalsChar :: (ip ++ [newlineChar])

/-- `outfile << node + "port=" + std::to_string(port) << std::endl`. -/
def portLine (nodeIndex : ℤ) (port : Int16) : Bytes :=
  portKey nodeIndex ++ equalsChar :: (intToString port.toInt ++ [newlineChar])

/-- What `Run` appends to the file, with the addresses of the host; without one the process
    exits. -/
def registration (nodeIndex : ℤ) (addrList : List InAddr) (port : Int16) : Option (List Bytes) :=
  addrList.head?.map fun addr => [ipLine nodeIndex (inetNtop addr), portLine nodeIndex port]

end RpcProvider

/-! ## Reading -/

/-- The loop over the nodes from `i` on, which ends at the first one without an address: the pairs
    that are put in `ipPortVt`. -/
def MprpcConfig.nodesFrom (config : MprpcConfig) (i : ℕ) : List (Bytes × Int16) :=
  if i < 2 ^ 31 - 2 then
    let nodeIp := config.load (ipKey i)
    let nodePortStr := config.load (portKey i)
    if nodeIp.isEmpty then []
    else (nodeIp, Int16.ofInt (atoi nodePortStr)) :: config.nodesFrom (i + 1)
  else []
termination_by 2 ^ 31 - 2 - i

/-- `servers` in the constructor of `KvServer`, with no connection to itself; the process exits if
    there is no file. -/
def KvServer.servers (me : ℕ) (nodeInfor : Option Bytes) : Option (List (Option (Bytes × Int16))) :=
  ((MprpcConfig.mk []).loadConfigFile nodeInfor).map fun config =>
    (config.nodesFrom 0).mapIdx fun i node => if i = me then none else some node

/-- `m_servers` after `Clerk::Init`. -/
def Clerk.init (servers : List (Bytes × Int16)) (configFile : Option Bytes) :
    Option (List (Bytes × Int16)) :=
  ((MprpcConfig.mk []).loadConfigFile configFile).map fun config => servers ++ config.nodesFrom 0

end RaftStore
