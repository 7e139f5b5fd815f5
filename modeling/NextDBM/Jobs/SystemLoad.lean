import Mathlib.Data.List.DropRight

/-!
# The load of the server

Every five seconds `systemLoad` reads the counters of the machine and appends to the series of the overview,
each of which keeps its last thirty entries. A reading that fails ends the turn, and what was appended before
it stays. The processors are described while their number is still zero.

The floating-point operations are given.
-/

namespace NextDBM

namespace SystemLoad

/-- `utils.Decimal`, the quotients in percent, and the load for each processor. -/
structure Arithmetic (F : Type) where
  zero : F
  decimal : F → F
  usedPercent : UInt64 → UInt64 → F
  perCpu : F → Int → F

structure Mem (F : Type) where
  total : UInt64
  available : UInt64
  used : UInt64
  usedPercent : F

structure CpuInfo (F : Type) where
  modelName : String
  cacheSize : Int
  mhz : F

structure Cpu (F : Type) where
  count : Int
  phyCount : Int
  usedPercent : F
  info : List (CpuInfo F)

structure Disk (F : Type) where
  total : UInt64
  used : UInt64
  available : UInt64
  usedPercent : F

structure LoadStat (F : Type) where
  load1 : F
  load5 : F
  load15 : F
  percent : F

/-- An entry of a series. -/
structure Stat (F : Type) where
  time : String
  value : F

structure IOStat where
  time : String
  read : UInt64
  write : UInt64

/-- `stat.SystemLoad` -/
structure Load (F : Type) where
  loadStat : LoadStat F
  mem : Mem F
  memStat : List (Stat F) := []
  cpu : Cpu F
  cpuStat : List (Stat F) := []
  disk : Disk F
  diskIOStat : List IOStat := []
  netIOStat : List IOStat := []

/-- What the calls of one turn return. The counters of a disk are the bytes read and written, those of an
interface the bytes sent and received. -/
structure Readings (ε F : Type) where
  beforeDisk : Except ε (List (UInt64 × UInt64))
  beforeNet : Except ε (List (UInt64 × UInt64))
  percent : Except ε F
  afterNet : Except ε (List (UInt64 × UInt64))
  afterDisk : Except ε (List (UInt64 × UInt64))
  now : String
  /-- The total and the used bytes. -/
  usage : Except ε (UInt64 × UInt64)
  counts : Except ε Int
  phyCounts : Except ε Int
  info : Except ε (List (CpuInfo F))
  /-- `Load1`, `Load5` and `Load15`. -/
  avg : Except ε (F × F × F)
  virtualMemory : Except ε (Mem F)

/-- `ioCounter` and `netCounter`. -/
def counter (counters : List (UInt64 × UInt64)) : UInt64 × UInt64 :=
  counters.foldl (fun sums v => (sums.1 + v.1, sums.2 + v.2)) (0, 0)

/-- `append`, and the first entry is dropped when there are more than 30. -/
def push {α : Type} (series : List α) (entry : α) : List α :=
  if 30 < (series ++ [entry]).length then (series ++ [entry]).drop 1 else series ++ [entry]

/-- What is read before the load is touched. -/
structure Measured (F : Type) where
  disk : IOStat
  net : IOStat
  percent : F
  total : UInt64
  used : UInt64

section

variable {ε F : Type} (ops : Arithmetic F) (r : Readings ε F)

def measure : Except ε (Measured F) := do
  let (beforeBytesRead, beforeBytesWrite) := counter (← r.beforeDisk)
  let (beforeBytesSent, beforeBytesRecv) := counter (← r.beforeNet)
  let percent ← r.percent
  let (afterBytesSent, afterBytesRecv) := counter (← r.afterNet)
  let (afterBytesRead, afterBytesWrite) := counter (← r.afterDisk)
  let (total, used) ← r.usage
  return {
    disk := ⟨r.now, afterBytesRead - beforeBytesRead, afterBytesWrite - beforeBytesWrite⟩
    net := ⟨r.now, afterBytesRecv - beforeBytesRecv, afterBytesSent - beforeBytesSent⟩
    percent, total, used }

/-- The description of the processors, and whether the turn goes on. -/
def describe (cpu : Cpu F) : Cpu F × Bool :=
  if cpu.count = 0 then
    match r.counts with
    | .error _ => (cpu, false)
    | .ok count =>
      match r.phyCounts with
      | .error _ => ({ cpu with count }, false)
      | .ok phyCount =>
        match r.info with
        | .error _ => ({ cpu with count, phyCount }, false)
        | .ok info => ({ cpu with count, phyCount, info := cpu.info ++ info }, true)
  else (cpu, true)

def sampleDisk (m : Measured F) (s : Load F) : Load F :=
  { s with
    disk := { total := m.total, used := m.used, available := m.total - m.used
              usedPercent := ops.usedPercent m.used m.total } }

def cpuEntry (m : Measured F) : Stat F := ⟨r.now, ops.decimal m.percent⟩

def memEntry (mem : Mem F) : Stat F := ⟨r.now, ops.decimal mem.usedPercent⟩

def sampleCpu (m : Measured F) (cpu : Cpu F) (s : Load F) : Load F :=
  { s with
    cpu := { cpu with usedPercent := m.percent }
    cpuStat := push s.cpuStat (cpuEntry ops r m) }

def sampleLoad (avg : F × F × F) (s : Load F) : Load F :=
  { s with loadStat := ⟨avg.1, avg.2.1, avg.2.2, ops.perCpu avg.1 s.cpu.count⟩ }

/-- The end of a turn that goes through. -/
def sampleRest (m : Measured F) (mem : Mem F) (s : Load F) : Load F :=
  { s with
    mem
    memStat := push s.memStat (memEntry ops r mem)
    diskIOStat := push s.diskIOStat m.disk
    netIOStat := push s.netIOStat m.net }

/-- One turn; its error is only logged. -/
def systemLoad (s : Load F) : Load F :=
  match measure r with
  | .error _ => s
  | .ok m =>
    let s := sampleDisk ops m s
    match describe r s.cpu with
    | (cpu, false) => { s with cpu }
    | (cpu, true) =>
      let s := sampleCpu ops r m cpu s
      match r.avg with
      | .error _ => s
      | .ok avg =>
        let s := sampleLoad ops avg s
        match r.virtualMemory with
        | .error _ => s
        | .ok mem => sampleRest ops r m mem s

end

section

variable {ε F : Type} (ops : Arithmetic F)

/-- The load after the turns of a process. -/
def run (rs : List (Readings ε F)) : Load F :=
  rs.foldl (fun s r => systemLoad ops r s)
    { loadStat := ⟨ops.zero, ops.zero, ops.zero, ops.zero⟩
      mem := ⟨0, 0, 0, ops.zero⟩
      cpu := ⟨0, 0, ops.zero, []⟩
      disk := ⟨0, 0, 0, ops.zero⟩ }

/-! ## What is expected -/

/-- The turn counts the processors, if they have not been counted. -/
def Readings.counted (r : Readings ε F) : Bool :=
  match measure r, r.counts with
  | .ok _, .ok count => count ≠ 0
  | _, _ => false

/-- What the turn has to say of the processors. -/
def Readings.described (r : Readings ε F) : Option (List (CpuInfo F)) :=
  match measure r, r.counts, r.phyCounts, r.info with
  | .ok _, .ok _, .ok _, .ok info => some info
  | _, _, _, _ => none

/-- The turn, after others that have counted the processors or not, samples the processors. -/
def Readings.sampled (counted : Bool) (r : Readings ε F) : Option (Measured F) :=
  if counted ∨ r.described.isSome then (measure r).toOption else none

/-- The turn goes through. -/
def Readings.completed (counted : Bool) (r : Readings ε F) : Option (Measured F × Mem F) := do
  let m ← r.sampled counted
  let _ ← r.avg.toOption
  let mem ← r.virtualMemory.toOption
  return (m, mem)

/-- What the turns have to append, each after those before it. -/
def appended {α : Type} (entry : Bool → Readings ε F → Option α) : Bool → List (Readings ε F) → List α
  | _, [] => []
  | counted, r :: rs => (entry counted r).toList ++ appended entry (counted || r.counted) rs

/-- The turns up to the first that counts the processors. -/
def upToCount : List (Readings ε F) → List (Readings ε F)
  | [] => []
  | r :: rs => if r.counted then [r] else r :: upToCount rs

/-- What the load shows after some turns. -/
structure Shows (rs : List (Readings ε F)) (s : Load F) : Prop where
  cpuStat : s.cpuStat = (appended (fun counted r => (r.sampled counted).map (cpuEntry ops r)) false rs).rtake 30
  memStat : s.memStat =
    (appended (fun counted r => (r.completed counted).map fun x => memEntry ops r x.2) false rs).rtake 30
  diskIOStat : s.diskIOStat =
    (appended (fun counted r => (r.completed counted).map fun x => x.1.disk) false rs).rtake 30
  netIOStat : s.netIOStat =
    (appended (fun counted r => (r.completed counted).map fun x => x.1.net) false rs).rtake 30
  /-- The turn that counts the processors is the last one that can describe them. -/
  info : s.cpu.info = (upToCount rs).flatMap fun r => r.described.getD []

end

end SystemLoad

end NextDBM
