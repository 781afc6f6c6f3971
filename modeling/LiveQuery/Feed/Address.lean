import LiveQuery.Feed.Host

/-!
# Addresses

The text that says where a server is: a host, a colon and the number of a service.
-/

namespace LiveQuery.Feed

structure Address where
  host : Host
  service : UInt16
deriving DecidableEq, Repr

inductive AddressFault where
  | withoutService
  | unreadableService
  /-- There is a null character in the host, at which it would be cut off. -/
  | cutHost
  /-- The host is neither a number nor a name. -/
  | unknownHost
deriving DecidableEq, Repr

def AddressFault.message : AddressFault → String
  | .withoutService => "invalid socket address"
  | .unreadableService => "invalid port value"
  | .cutHost => "file name contained an unexpected NUL byte"
  | .unknownHost => "failed to lookup address information: Name or service not known"

/-- The host of an address. A number of version 6 may stand in brackets if the service is digits
alone. -/
def Address.host? (host service : List Char) : Option Host :=
  match host with
  | '[' :: inner =>
    if inner.getLast? = some ']' ∧ service.all Char.isDigit then Host.number6? inner.dropLast
    else none
  | host => Host.parse? host

/-- The address that a text denotes. The last colon counts, and the service is a number below `2¹⁶`,
which is looked at before the host. -/
def Address.parse (text : String) : Except AddressFault Address :=
  let reversed := text.toList.reverse
  match reversed.dropWhile (· != ':') with
  | [] => .error .withoutService
  | _ :: host =>
    let digits := (reversed.takeWhile (· != ':')).reverse
    match Decimal.unsignedBelow? (Nat.pow 2 16) digits with
    | none => .error .unreadableService
    | some service =>
      if host.contains '\x00' then .error .cutHost
      else match Address.host? host.reverse digits with
        | none => .error .unknownHost
        | some host => .ok ⟨host, service.toUInt16⟩

end LiveQuery.Feed
