import Atalanta.Library.Interconnect

/-! The address constants of `rt_pkg.sv`. Addresses are compared as unsigned integers. -/

namespace Atalanta.RtPkg

open Interconnect

abbrev AddrRule := Range Nat
abbrev XbarRule := Rule Nat Nat

/-! General address mapping, exclusive end address. -/

def dbgRule : AddrRule := ⟨0x00000000, 0x00001000⟩
def imemRule : AddrRule := ⟨0x00001000, 0x00005000⟩
def dmemRule : AddrRule := ⟨0x00005000, 0x00009000⟩
def romRule : AddrRule := ⟨0x00009000, 0x00009300⟩
def dmaRule : AddrRule := ⟨0x00010000, 0x00010080⟩
def sramRule : AddrRule := ⟨0x00020000, 0x00030000⟩
def apbRule : AddrRule := ⟨0x00030000, 0x00070000⟩
def axiRule : AddrRule := ⟨0xFFFF0000, 0x00000000⟩

/-! APB mapping, inclusive end address. -/

def gpioStartAddr : Nat := 0x00030000
def gpioEndAddr : Nat := 0x0003006F
def uartStartAddr : Nat := 0x00030100
def uartEndAddr : Nat := 0x000301FF
def mTimerStartAddr : Nat := 0x00030200
def mTimerEndAddr : Nat := 0x00030210
def clicStartAddr : Nat := 0x00050000
def clicEndAddr : Nat := 0x0005FFFF

def numMemBanks : Nat := 1
def numDMAs : Nat := 1

def getAddrSize (startAddr endAddr : Nat) : Nat := endAddr - startAddr

def imemSizeBytes : Nat := getAddrSize imemRule.start imemRule.stop
def dmemSizeBytes : Nat := getAddrSize dmemRule.start dmemRule.stop
def sramSizeBytes : Nat := getAddrSize sramRule.start sramRule.stop

def generalMap : List AddrRule :=
  [dbgRule, imemRule, dmemRule, romRule, dmaRule, sramRule, apbRule, axiRule]

end Atalanta.RtPkg
