import Mathlib.Algebra.Group.Nat.Defs
import QuicOnNs3.Lib.Fields
import QuicOnNs3.Trace.AddressPair

/-!
# The file names of the traces

The files of a flow are named after its address pair, written as
`client_ip:client_port_server_ip:server_port` with the addresses in dotted decimals.
The numbers have no fixed width, but no separator is a digit, so the name
determines the ten numbers (`Fields.decimals_inj`) and the bytes determine the
addresses (`byte_inj`).
-/

namespace QuicOnNs3.Trace

open QuicOnNs3.Fields

/-- A byte of an address, in `GetIp2String`. -/
def ipByte (ipHostOrder : UInt32) (shift : UInt32) : UInt8 :=
  ((ipHostOrder >>> shift) &&& 0xff).toUInt8

/-- `GetIp2String`. -/
def getIp2String (ipHostOrder : UInt32) : String :=
  toString (ipByte ipHostOrder 24).toNat ++ "." ++
    toString (ipByte ipHostOrder 16).toNat ++ "." ++
    toString (ipByte ipHostOrder 8).toNat ++ "." ++
    toString (ipByte ipHostOrder 0).toNat

/-- `Ns3QuicAddressPair2String`. -/
def ns3QuicAddressPair2String (addrPair : Ns3QuicAddressPair) : String :=
  let clientIp := getIp2String addrPair.clientIp
  let serverIp := getIp2String addrPair.serverIp
  let clientPort := toString addrPair.clientPort.toNat
  let serverPort := toString addrPair.serverPort.toNat
  clientIp ++ ":" ++ clientPort ++ "_" ++ serverIp ++ ":" ++ serverPort

/-- `prefix` in `AddMonitorAddressPair`. -/
def filePrefix (topoId : String) (addrPair : Ns3QuicAddressPair) : String :=
  topoId ++ "_" ++ ns3QuicAddressPair2String addrPair

/-! ## The numbers of a name -/

theorem ipByte_toNat (ip : UInt32) {shift : UInt32} (h : shift.toNat < 32) :
    (ipByte ip shift).toNat = ip.toNat / 2 ^ shift.toNat % 256 := by
  have hmask : (0xff : UInt32).toNat = 2 ^ 8 - 1 := rfl
  rw [ipByte, UInt32.toNat_toUInt8, UInt32.toNat_and, hmask, Nat.and_two_pow_sub_one_eq_mod,
    UInt32.toNat_shiftRight, Nat.mod_eq_of_lt h, Nat.shiftRight_eq_div_pow]
  exact Nat.mod_mod _ _

/-- An address is determined by its bytes. -/
theorem ip_eq_of_bytes {ip ip' : UInt32} (h24 : (ipByte ip 24).toNat = (ipByte ip' 24).toNat)
    (h16 : (ipByte ip 16).toNat = (ipByte ip' 16).toNat)
    (h8 : (ipByte ip 8).toNat = (ipByte ip' 8).toNat)
    (h0 : (ipByte ip 0).toNat = (ipByte ip' 0).toNat) : ip = ip' := by
  rw [ipByte_toNat ip (by decide), ipByte_toNat ip' (by decide)] at h24 h16 h8 h0
  simp only [UInt32.reduceToNat] at h24 h16 h8 h0
  have hlt := ip.toNat_lt
  have hlt' := ip'.toNat_lt
  apply UInt32.toNat_inj.1
  omega

/-- The numbers of a name after the first one, each after its separator. -/
def numbers (p : Ns3QuicAddressPair) : List (Char × Nat) :=
  [('.', (ipByte p.clientIp 16).toNat), ('.', (ipByte p.clientIp 8).toNat),
    ('.', (ipByte p.clientIp 0).toNat), (':', p.clientPort.toNat),
    ('_', (ipByte p.serverIp 24).toNat), ('.', (ipByte p.serverIp 16).toNat),
    ('.', (ipByte p.serverIp 8).toNat), ('.', (ipByte p.serverIp 0).toNat),
    (':', p.serverPort.toNat)]

theorem toList_addrPair (p : Ns3QuicAddressPair) :
    (ns3QuicAddressPair2String p).toList =
      decimals (ipByte p.clientIp 24).toNat (numbers p) := by
  simp [ns3QuicAddressPair2String, getIp2String, decimals, numbers, joined, others]

theorem numbers_separators (p : Ns3QuicAddressPair) :
    ∀ f ∈ numbers p, f.1.isDigit = false := by
  simp [numbers]

theorem ns3QuicAddressPair2String_inj {p q : Ns3QuicAddressPair}
    (h : ns3QuicAddressPair2String p = ns3QuicAddressPair2String q) : p = q := by
  have hlist := congrArg String.toList h
  rw [toList_addrPair, toList_addrPair] at hlist
  have ⟨hfirst, hrest⟩ := decimals_inj (numbers_separators p) (numbers_separators q) hlist
  simp only [numbers, List.cons.injEq, Prod.mk.injEq, true_and, and_true] at hrest
  have ⟨hc16, hc8, hc0, hcp, hs24, hs16, hs8, hs0, hsp⟩ := hrest
  have hclient := ip_eq_of_bytes hfirst hc16 hc8 hc0
  have hserver := ip_eq_of_bytes hs24 hs16 hs8 hs0
  cases p
  cases q
  simp only [UInt16.toNat_inj] at hcp hsp
  simp_all

theorem filePrefix_inj {topoId : String} {p q : Ns3QuicAddressPair}
    (h : filePrefix topoId p = filePrefix topoId q) : p = q := by
  have hlist := congrArg String.toList h
  simp only [filePrefix, String.toList_append, List.append_cancel_left_eq] at hlist
  exact ns3QuicAddressPair2String_inj (String.toList_inj.1 hlist)

/-- The name of a flow determines its addresses and ports, and two flows have different
prefixes in every topology. -/
theorem ns3QuicAddressPair2String_injective :
    (∀ p q : Ns3QuicAddressPair, ns3QuicAddressPair2String p = ns3QuicAddressPair2String q →
      p.clientIp = q.clientIp ∧ p.clientPort = q.clientPort ∧
        p.serverIp = q.serverIp ∧ p.serverPort = q.serverPort) ∧
    ∀ (topoId : String) (p q : Ns3QuicAddressPair), p ≠ q →
      filePrefix topoId p ≠ filePrefix topoId q := by
  constructor
  · intro p q h
    rw [ns3QuicAddressPair2String_inj h]
    exact ⟨rfl, rfl, rfl, rfl⟩
  · intro topoId p q hne h
    exact hne (filePrefix_inj h)

/-- The files of the first flow of a topology. -/
example : filePrefix "1" ⟨0x0A010101, 0x0A010102, 49153, 1234⟩ =
    "1_10.1.1.1:49153_10.1.1.2:1234" := by
  decide +kernel

end QuicOnNs3.Trace
