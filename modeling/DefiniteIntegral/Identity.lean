/-! What the program calls itself. -/

namespace DefiniteIntegral

/-- The name of the command. -/
def programName : String := "numint"

/-- The name of the service. -/
def serviceName : String := "numerical-integration"

/-- The version. -/
def programVersion : String := "0.1.0"

end DefiniteIntegral
