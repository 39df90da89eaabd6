namespace CodeOutline

structure ServerSettings where
  host : String := "127.0.0.1"
  port : Nat := 5001
  deriving DecidableEq, Repr

structure ToolSettings where
  compiler : String := "gcc"
  node : String := "node"
  /-- The option that turns on the permission model of node. -/
  permissionFlag : String := "--permission"
  /-- In seconds. -/
  compileTimeout : Nat := 10
  /-- In seconds. -/
  runTimeout : Nat := 5
  /-- Where scratch directories are made, unless it is the system's own place for them. -/
  scratchParent : Option String := none
  extraFlags : List String := []
  deriving DecidableEq, Repr

structure Settings where
  server : ServerSettings := {}
  tools : ToolSettings := {}
  deriving DecidableEq, Repr

def ServerSettings.address (server : ServerSettings) : String :=
  server.host ++ ":" ++ toString server.port

end CodeOutline
